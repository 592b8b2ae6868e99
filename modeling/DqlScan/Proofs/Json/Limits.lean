import DqlScan.Proofs.Except
import DqlScan.Proofs.Json.Written
import Mathlib.Algebra.Group.Nat.Defs

/-!
# Values within limits

What is read keeps within the limits of the reader, and the names in its objects differ
(`read_fits`). So a value without doubles that was read can be read again from its text.
-/

namespace DqlScan.Json

mutual

/-- The names in the objects of the value differ, and it exceeds no limit. -/
def Fits : Json → Limits → Prop
  | .null, _ | .bool _, _ | .str _, _ | .double _, _ => True
  | .int n, limits => (Text.ofNat n.natAbs).length ≤ limits.digits
  | .arr items, limits => ∃ inner, limits.inner? = some inner ∧ ItemsFit items inner
  | .obj members, limits =>
    ∃ inner, limits.inner? = some inner ∧ (members.map Prod.fst).Nodup ∧ MembersFit members inner

def ItemsFit : List Json → Limits → Prop
  | [], _ => True
  | item :: items, limits => item.Fits limits ∧ ItemsFit items limits

def MembersFit : List (Text × Json) → Limits → Prop
  | [], _ => True
  | (_, value) :: members, limits => value.Fits limits ∧ MembersFit members limits

end

mutual

def Integral : Json → Prop
  | .null | .bool _ | .str _ | .int _ => True
  | .double _ => False
  | .arr items => ItemsIntegral items
  | .obj members => MembersIntegral members

def ItemsIntegral : List Json → Prop
  | [] => True
  | item :: items => item.Integral ∧ ItemsIntegral items

def MembersIntegral : List (Text × Json) → Prop
  | [] => True
  | (_, value) :: members => value.Integral ∧ MembersIntegral members

end

theorem membersFit_iff {members : List (Text × Json)} {limits : Limits} :
    MembersFit members limits ↔ ∀ m ∈ members, m.2.Fits limits := by
  induction members with
  | nil => simp [MembersFit]
  | cons m members ih => simp [MembersFit, ih]

mutual

theorem Fits.within : ∀ {v : Json} {limits : Limits}, v.Fits limits → v.Integral → v.Within limits
  | .null, _, _, _ | .bool _, _, _, _ | .str _, _, _, _ => trivial
  | .int _, _, fits, _ => fits
  | .arr _, _, ⟨inner, hinner, fits⟩, integral =>
    ⟨inner, hinner, ItemsFit.within fits integral⟩
  | .obj _, _, ⟨inner, hinner, hnames, fits⟩, integral =>
    ⟨inner, hinner, hnames, MembersFit.within fits integral⟩

theorem ItemsFit.within : ∀ {items : List Json} {limits : Limits}, ItemsFit items limits →
    ItemsIntegral items → ItemsWithin items limits
  | [], _, _, _ => trivial
  | _ :: _, _, fits, integral =>
    ⟨Fits.within fits.1 integral.1, ItemsFit.within fits.2 integral.2⟩

theorem MembersFit.within : ∀ {members : List (Text × Json)} {limits : Limits},
    MembersFit members limits → MembersIntegral members → MembersWithin members limits
  | [], _, _, _ => trivial
  | (_, _) :: _, _, fits, integral =>
    ⟨Fits.within fits.1 integral.1, MembersFit.within fits.2 integral.2⟩

end

/-! ### Numbers -/

theorem ofDigitChars_lt {ds : Text} (h : ∀ c ∈ ds, c.isDigit = true) (n : Nat) :
    Nat.ofDigitChars 10 ds n < (n + 1) * 10 ^ ds.length := by
  induction ds generalizing n with
  | nil => simp
  | cons c ds ih =>
    obtain ⟨hc, hds⟩ := List.forall_mem_cons.mp h
    have hdigit : c.toNat - '0'.toNat ≤ 9 := by
      simp only [Char.isDigit, Bool.and_eq_true, decide_eq_true_eq, ge_iff_le,
        UInt32.le_iff_toNat_le] at hc
      have hnine : c.toNat ≤ 57 := hc.2
      show c.toNat - 48 ≤ 9
      omega
    rw [Nat.ofDigitChars_cons, List.length_cons, Nat.pow_succ']
    calc
      _ < (10 * n + (c.toNat - '0'.toNat) + 1) * 10 ^ ds.length := ih hds _
      _ ≤ (n + 1) * 10 * 10 ^ ds.length := Nat.mul_le_mul_right _ (by omega)
      _ = (n + 1) * (10 * 10 ^ ds.length) := Nat.mul_assoc ..

/-- A number is written with no more digits than it was read from. -/
theorem length_ofNat_digitsValue {ds : Text} (hne : ds ≠ []) (h : ∀ c ∈ ds, c.isDigit = true) :
    (Text.ofNat (digitsValue ds)).length ≤ ds.length := by
  rw [Text.ofNat, Nat.length_toDigits_le_iff (by decide) (List.length_pos_iff.mpr hne)]
  have hlt := ofDigitChars_lt h 0
  rwa [Nat.zero_add, Nat.one_mul] at hlt

theorem isDigit_of_mem_digits {t : Text} {c : Char} (h : c ∈ digits t) : c.isDigit = true :=
  List.mem_takeWhile_imp h

theorem readWhole?_digits {t ds rest : Text} (h : readWhole? t = some (ds, rest)) :
    ds ≠ [] ∧ ∀ c ∈ ds, c.isDigit = true := by
  unfold readWhole? at h
  split at h
  · cases h
    exact ⟨List.cons_ne_nil _ _, List.forall_mem_singleton.mpr rfl⟩
  · split at h
    · cases h
    · next hne =>
      cases h
      exact ⟨hne, fun c => isDigit_of_mem_digits⟩

theorem ofDigits_fits {limits : Limits} {negative : Bool} {ds : Text} {v : Json} (hne : ds ≠ [])
    (hds : ∀ c ∈ ds, c.isDigit = true) (h : ofDigits limits negative ds = .ok v) :
    v.Fits limits := by
  unfold ofDigits at h
  split at h
  · cases h
  · next hle =>
    cases h
    have hlength := length_ofNat_digitsValue hne hds
    have habs : (if negative then -(digitsValue ds : Int) else digitsValue ds).natAbs =
        digitsValue ds := by
      split <;> simp
    show (Text.ofNat (if negative then -(digitsValue ds : Int) else digitsValue ds).natAbs).length ≤
      limits.digits
    rw [habs]
    omega

theorem readNumber_fits {limits : Limits} {t rest : Text} {v : Json}
    (h : readNumber limits t = .ok (v, rest)) : v.Fits limits := by
  unfold readNumber at h
  dsimp only at h
  split at h
  · cases h
  · next whole after hwhole =>
    obtain ⟨hne, hds⟩ := readWhole?_digits hwhole
    split at h
    · obtain ⟨n, hn, heq⟩ := map_eq_ok.mp h
      cases heq
      exact ofDigits_fits hne hds hn
    · cases h
      trivial

theorem readWord?_fits {limits : Limits} {t rest : Text} {v : Json}
    (h : readWord? t = some (v, rest)) : v.Fits limits := by
  have hwords : ∀ word ∈ words, word.2.Fits limits := by
    simp [words, Fits]
  obtain ⟨word, hword, hread⟩ := List.exists_of_findSome?_eq_some h
  obtain ⟨after, -, heq⟩ := Option.map_eq_some_iff.mp hread
  cases heq
  exact hwords word hword

/-! ### Members -/

theorem mem_setMember {name : Text} {value : Json} {members : List (Text × Json)}
    {m : Text × Json} (h : m ∈ setMember name value members) :
    m = (name, value) ∨ m ∈ members := by
  induction members with
  | nil => exact List.mem_cons.mp h
  | cons first rest ih =>
    rw [setMember] at h
    split at h
    · next heq =>
      subst heq
      exact (List.mem_cons.mp h).imp_right (List.mem_cons_of_mem _)
    · rcases List.mem_cons.mp h with rfl | h
      · exact .inr List.mem_cons_self
      · exact (ih h).imp_right (List.mem_cons_of_mem _)

theorem names_setMember {name : Text} {value : Json} {members : List (Text × Json)} {n : Text}
    (h : n ∈ (setMember name value members).map Prod.fst) :
    n = name ∨ n ∈ members.map Prod.fst := by
  obtain ⟨m, hm, rfl⟩ := List.mem_map.mp h
  rcases mem_setMember hm with rfl | hm
  · exact .inl rfl
  · exact .inr (List.mem_map_of_mem hm)

theorem nodup_setMember {members : List (Text × Json)} (h : (members.map Prod.fst).Nodup)
    (name : Text) (value : Json) : ((setMember name value members).map Prod.fst).Nodup := by
  induction members with
  | nil => simp [setMember]
  | cons first rest ih =>
    obtain ⟨hfirst, hrest⟩ := List.nodup_cons.mp h
    rw [setMember]
    split
    · exact h
    · next hne =>
      refine List.nodup_cons.mpr ⟨fun hmem => ?_, ih hrest⟩
      exact (names_setMember hmem).elim hne hfirst

/-! ### Values -/

def MembersRead (members : List (Text × Json)) (limits : Limits) : Prop :=
  (members.map Prod.fst).Nodup ∧ MembersFit members limits

theorem MembersRead.nil (limits : Limits) : MembersRead [] limits := ⟨List.nodup_nil, trivial⟩

theorem MembersRead.set {members : List (Text × Json)} {limits : Limits}
    (h : MembersRead members limits) (name : Text) {value : Json} (hvalue : value.Fits limits) :
    MembersRead (setMember name value members) limits := by
  refine ⟨nodup_setMember h.1 name value, membersFit_iff.mpr fun m hm => ?_⟩
  rcases mem_setMember hm with rfl | hm
  · exact hvalue
  · exact membersFit_iff.mp h.2 m hm

-- The recursion is that of the reader, on its steps.
mutual

theorem readValue_fits {limits : Limits} : ∀ {steps : Nat} {t rest : Text} {v : Json},
    readValue limits steps t = .ok (v, rest) → v.Fits limits
  | 0, _, _, _, h => by cases h
  | steps + 1, t, rest, v, h => by
    rw [readValue.eq_def] at h
    dsimp only at h
    split at h
    · obtain ⟨r, -, hv⟩ := map_eq_ok.mp h
      cases hv
      trivial
    · split at h
      · cases h
      · next inner hinner =>
        split at h
        · cases h
          exact ⟨inner, hinner, List.nodup_nil, trivial⟩
        · obtain ⟨r, hmembers, hv⟩ := map_eq_ok.mp h
          cases hv
          exact ⟨inner, hinner, readMembers_fit (.nil inner) hmembers⟩
    · split at h
      · cases h
      · next inner hinner =>
        split at h
        · cases h
          exact ⟨inner, hinner, trivial⟩
        · obtain ⟨r, hitems, hv⟩ := map_eq_ok.mp h
          cases hv
          exact ⟨inner, hinner, readItems_fit hitems⟩
    · split at h
      · next hword =>
        cases h
        exact readWord?_fits hword
      · exact readNumber_fits h
termination_by structural steps => steps

theorem readItems_fit {limits : Limits} : ∀ {steps : Nat} {t rest : Text} {items : List Json},
    readItems limits steps t = .ok (items, rest) → ItemsFit items limits
  | 0, _, _, _, h => by cases h
  | steps + 1, t, rest, items, h => by
    rw [readItems] at h
    split at h
    · cases h
    · next item after hitem =>
      split at h
      · cases h
        exact ⟨readValue_fits hitem, trivial⟩
      · obtain ⟨r, hmore, heq⟩ := map_eq_ok.mp h
        cases heq
        exact ⟨readValue_fits hitem, readItems_fit hmore⟩
      · cases h
termination_by structural steps => steps

theorem readMembers_fit {limits : Limits} : ∀ {steps : Nat} {before members : List (Text × Json)}
    {t rest : Text}, MembersRead before limits →
    readMembers limits steps before t = .ok (members, rest) → MembersRead members limits
  | 0, _, _, _, _, _, h => by cases h
  | steps + 1, before, members, t, rest, hbefore, h => by
    rw [readMembers.eq_def] at h
    dsimp only at h
    split at h
    · split at h
      · cases h
      · next name after _ =>
        split at h
        · split at h
          · cases h
          · next value last hvalue =>
            have hset := hbefore.set name (readValue_fits hvalue)
            split at h
            · cases h
              exact hset
            · exact readMembers_fit hset h
            · cases h
        · cases h
    · cases h
termination_by structural steps => steps

end

/-- What is read keeps within the limits. -/
theorem read_fits {limits : Limits} {t : Text} {v : Json} (h : read limits t = .ok v) :
    v.Fits limits := by
  have hdocument : readDocument limits t = .ok v := by
    unfold read at h
    rcases hread : readDocument limits t with stop | value <;> rw [hread] at h <;> cases h
    rfl
  unfold readDocument at hdocument
  split at hdocument
  · cases hdocument
  · split at hdocument
    · cases hdocument
    · next hvalue =>
      split at hdocument <;> cases hdocument
      exact readValue_fits hvalue

end DqlScan.Json
