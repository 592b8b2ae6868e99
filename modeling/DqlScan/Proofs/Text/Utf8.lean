import DqlScan.Text.Utf8
import Mathlib.Data.List.Forall2
import Mathlib.Order.Bounds.Defs

/-!
# Reading what was encoded

Octets are read as a text exactly if they encode it (`decode_eq_ok`). Octets that encode none are
refused where their longest prefix that encodes a text ends (`decode_error`).
-/

namespace DqlScan.Utf8

/-! ### The octets of a character -/

/-- The octets of a code point: the bits of the number, six in each octet behind the first, and no
octet more than they need. Surrogates have none. -/
inductive Form (n : Nat) : Bytes → Prop where
  | one {a : UInt8} : n ≤ 0x7F → a.toNat = n → Form n [a]
  | two {a b : UInt8} : 0x80 ≤ n → n ≤ 0x7FF → a.toNat = 0xC0 + n / 64 →
      b.toNat = 0x80 + n % 64 → Form n [a, b]
  | three {a b c : UInt8} : 0x800 ≤ n → n ≤ 0xFFFF → ¬(0xD800 ≤ n ∧ n ≤ 0xDFFF) →
      a.toNat = 0xE0 + n / 4096 → b.toNat = 0x80 + n / 64 % 64 → c.toNat = 0x80 + n % 64 →
      Form n [a, b, c]
  | four {a b c d : UInt8} : 0x10000 ≤ n → n ≤ 0x10FFFF → a.toNat = 0xF0 + n / 262144 →
      b.toNat = 0x80 + n / 4096 % 64 → c.toNat = 0x80 + n / 64 % 64 → d.toNat = 0x80 + n % 64 →
      Form n [a, b, c, d]

theorem form_utf8EncodeChar (c : Char) : Form c.toNat (String.utf8EncodeChar c) := by
  have hvalid : c.toNat < 0xD800 ∨ (0xDFFF < c.toNat ∧ c.toNat < 0x110000) := c.valid
  have hn : c.val.toNat = c.toNat := rfl
  have hoctet {m : Nat} (h : m < 256) : (UInt8.ofNat m).toNat = m := UInt8.toNat_ofNat_of_lt' h
  unfold String.utf8EncodeChar
  rw [hn]
  generalize c.toNat = n at hvalid
  dsimp only
  split
  · next h => exact .one h (hoctet (by omega))
  split
  · next h => refine .two (by omega) h ?_ ?_ <;> (rw [hoctet (by omega)]; omega)
  split
  · next h => refine .three (by omega) h (by omega) ?_ ?_ ?_ <;> (rw [hoctet (by omega)]; omega)
  · refine .four (by omega) (by omega) ?_ ?_ ?_ ?_ <;> (rw [hoctet (by omega)]; omega)

theorem Form.unique {n : Nat} {o p : Bytes} (ho : Form n o) (hp : Form n p) : o = p := by
  -- Forms of different lengths are for different numbers.
  cases ho <;> cases hp <;> first
    | omega
    | (simp only [List.cons.injEq, ← UInt8.toNat_inj, and_true]; omega)

theorem Form.encode {n : Nat} {o : Bytes} (h : Form n o) :
    String.utf8EncodeChar (Char.ofNat n) = o := by
  have hvalid : n.isValidChar := by
    unfold Nat.isValidChar
    cases h <;> omega
  have hn : (Char.ofNat n).toNat = n := by
    rw [Char.ofNat, dif_pos hvalid]
    rfl
  have hform := form_utf8EncodeChar (Char.ofNat n)
  rw [hn] at hform
  exact hform.unique h

/-! ### First octets and those that follow -/

theorem OctetRange.contains_iff {r : OctetRange} {b : UInt8} :
    r.contains b = true ↔ r.first.toNat ≤ b.toNat ∧ b.toNat ≤ r.last.toNat := by
  simp [contains, UInt8.le_iff_toNat_le]

/-- The table of first octets, by their numbers. -/
theorem Lead.ofOctet?_toNat (b : UInt8) : Lead.ofOctet? b =
    if b.toNat ≤ 0x7F then some ⟨b.toNat, []⟩
    else if b.toNat ≤ 0xC1 then none
    else if b.toNat ≤ 0xDF then some ⟨b.toNat - 0xC0, [continuation]⟩
    else if b.toNat ≤ 0xEF then
      let second : OctetRange :=
        if b.toNat = 0xE0 then ⟨0xA0, 0xBF⟩ else if b.toNat = 0xED then ⟨0x80, 0x9F⟩
        else continuation
      some ⟨b.toNat - 0xE0, [second, continuation]⟩
    else if b.toNat ≤ 0xF4 then
      let second : OctetRange :=
        if b.toNat = 0xF0 then ⟨0x90, 0xBF⟩ else if b.toNat = 0xF4 then ⟨0x80, 0x8F⟩
        else continuation
      some ⟨b.toNat - 0xF0, [second, continuation, continuation]⟩
    else none := by
  unfold ofOctet?
  simp only [UInt8.le_iff_toNat_le, ← UInt8.toNat_inj]
  rfl

def Follow (ranges : List OctetRange) (octets : Bytes) : Prop :=
  List.Forall₂ (fun r b => r.contains b) ranges octets

theorem follow_nil {octets : Bytes} : Follow [] octets ↔ octets = [] :=
  List.forall₂_nil_left_iff

theorem follow_cons {r : OctetRange} {ranges : List OctetRange} {octets : Bytes} :
    Follow (r :: ranges) octets ↔
      ∃ b rest, octets = b :: rest ∧ r.contains b ∧ Follow ranges rest := by
  unfold Follow
  rw [List.forall₂_cons_left_iff]
  grind

def carried (bits : Nat) (octets : Bytes) : Nat :=
  octets.foldl (fun bits b => bits * 64 + (b.toNat - 0x80)) bits

theorem carried_cons (bits : Nat) (b : UInt8) (octets : Bytes) :
    carried bits (b :: octets) = carried (bits * 64 + (b.toNat - 0x80)) octets := by
  simp only [carried, List.foldl_cons]

theorem continuation_contains {b : UInt8} :
    continuation.contains b = true ↔ 0x80 ≤ b.toNat ∧ b.toNat ≤ 0xBF :=
  OctetRange.contains_iff

/-- Behind the lowest and the highest lead of a form, the second octet has a narrower range. -/
theorem second_contains {n low high : Nat} {first last b : UInt8} (hne : low ≠ high)
    (hfirst : 0x80 ≤ first.toNat) (hlast : last.toNat ≤ 0xBF) :
    (if n = low then (⟨first, 0xBF⟩ : OctetRange) else if n = high then ⟨0x80, last⟩
      else continuation).contains b = true ↔
      (0x80 ≤ b.toNat ∧ b.toNat ≤ 0xBF) ∧ (n = low → first.toNat ≤ b.toNat) ∧
        (n = high → b.toNat ≤ last.toNat) := by
  split
  · simp only [OctetRange.contains_iff, UInt8.reduceToNat]
    omega
  split
  · simp only [OctetRange.contains_iff, UInt8.reduceToNat]
    omega
  · rw [continuation_contains]
    omega

/-- A first octet with octets in the ranges that it announces are a form. -/
theorem form_of_lead {b : UInt8} {lead : Lead} {octets : Bytes}
    (hlead : Lead.ofOctet? b = some lead) (h : Follow lead.following octets) :
    Form (carried lead.bits octets) (b :: octets) := by
  -- One case for each kind of first octet; the range of the second keeps surrogates and long forms
  -- out.
  rw [Lead.ofOctet?_toNat] at hlead
  split at hlead
  · next hle =>
    obtain rfl := Option.some.inj hlead
    obtain rfl := follow_nil.mp h
    exact .one hle rfl
  split at hlead
  · simp at hlead
  split at hlead
  · obtain rfl := Option.some.inj hlead
    simp only [follow_cons, follow_nil, continuation_contains] at h
    obtain ⟨c, _, rfl, hc, rfl⟩ := h
    refine .two ?_ ?_ ?_ ?_ <;> simp only [carried, List.foldl] <;> omega
  split at hlead
  · obtain rfl := Option.some.inj hlead
    simp (disch := decide) only [follow_cons, follow_nil, continuation_contains, second_contains,
      UInt8.reduceToNat] at h
    obtain ⟨c, _, rfl, hc, d, _, rfl, hd, rfl⟩ := h
    refine .three ?_ ?_ ?_ ?_ ?_ ?_ <;> simp only [carried, List.foldl] <;> omega
  split at hlead
  · obtain rfl := Option.some.inj hlead
    simp (disch := decide) only [follow_cons, follow_nil, continuation_contains, second_contains,
      UInt8.reduceToNat] at h
    obtain ⟨c, _, rfl, hc, d, _, rfl, hd, e, _, rfl, he, rfl⟩ := h
    refine .four ?_ ?_ ?_ ?_ ?_ ?_ <;> simp only [carried, List.foldl] <;> omega
  · simp at hlead

theorem Form.exists_lead {n : Nat} {o : Bytes} (h : Form n o) :
    ∃ b octets lead, o = b :: octets ∧ Lead.ofOctet? b = some lead ∧
      Follow lead.following octets ∧ carried lead.bits octets = n := by
  cases h with
  | @one a hn ha =>
    have hlead := Lead.ofOctet?_toNat a
    rw [if_pos (by omega)] at hlead
    exact ⟨a, [], _, rfl, hlead, follow_nil.mpr rfl, ha⟩
  | @two a b hlow hhigh ha hb =>
    have hlead := Lead.ofOctet?_toNat a
    rw [if_neg (by omega), if_neg (by omega), if_pos (by omega)] at hlead
    refine ⟨a, [b], _, rfl, hlead, ?_, ?_⟩
    · simp only [follow_cons, follow_nil, continuation_contains]
      exact ⟨b, [], rfl, by omega, rfl⟩
    · simp only [carried, List.foldl]
      omega
  | @three a b c hlow hhigh hscalar ha hb hc =>
    have hlead := Lead.ofOctet?_toNat a
    rw [if_neg (by omega), if_neg (by omega), if_neg (by omega), if_pos (by omega)] at hlead
    refine ⟨a, [b, c], _, rfl, hlead, ?_, ?_⟩
    · simp (disch := decide) only [follow_cons, follow_nil, continuation_contains, second_contains,
        UInt8.reduceToNat]
      exact ⟨b, [c], rfl, by omega, c, [], rfl, by omega, rfl⟩
    · simp only [carried, List.foldl]
      omega
  | @four a b c d hlow hhigh ha hb hc hd =>
    have hlead := Lead.ofOctet?_toNat a
    rw [if_neg (by omega), if_neg (by omega), if_neg (by omega), if_neg (by omega),
      if_pos (by omega)] at hlead
    refine ⟨a, [b, c, d], _, rfl, hlead, ?_, ?_⟩
    · simp (disch := decide) only [follow_cons, follow_nil, continuation_contains, second_contains,
        UInt8.reduceToNat]
      exact ⟨b, [c, d], rfl, by omega, c, [d], rfl, by omega, d, [], rfl, by omega, rfl⟩
    · simp only [carried, List.foldl]
      omega

theorem exists_lead (c : Char) :
    ∃ b octets lead, String.utf8EncodeChar c = b :: octets ∧ Lead.ofOctet? b = some lead ∧
      Follow lead.following octets ∧ Char.ofNat (carried lead.bits octets) = c := by
  obtain ⟨b, octets, lead, ho, hlead, hfollow, hbits⟩ := (form_utf8EncodeChar c).exists_lead
  exact ⟨b, octets, lead, ho, hlead, hfollow, by rw [hbits, Char.ofNat_toNat]⟩

/-! ### Reading one character -/

/-- Inside a character, the octets that have to follow make it up. -/
theorem decodeFrom_follow {next : OctetRange} {later : List OctetRange} {octets : Bytes}
    (h : Follow (next :: later) octets) (start i : Nat) (taken : Bytes) (bits : Nat)
    (rest : Bytes) :
    decodeFrom (.inside start taken bits next later) i (octets ++ rest) =
      (decodeFrom .between (i + octets.length) rest).map
        (Char.ofNat (carried bits octets) :: ·) := by
  induction later generalizing next octets i taken bits with
  | nil =>
    obtain ⟨b, octets, rfl, hb, hnil⟩ := follow_cons.mp h
    obtain rfl := follow_nil.mp hnil
    rw [List.cons_append, decodeFrom, if_pos hb]
    rfl
  | cons range later ih =>
    obtain ⟨b, octets, rfl, hb, hfollow⟩ := follow_cons.mp h
    have hlength : i + 1 + octets.length = i + (b :: octets).length := by
      rw [List.length_cons]
      omega
    rw [List.cons_append, decodeFrom, if_pos hb]
    dsimp only
    rw [ih hfollow, hlength, carried_cons]

/-- Inside a character, octets of which no prefix can follow are a fault from its first octet on. -/
theorem decodeFrom_refused {next : OctetRange} {later : List OctetRange} {bytes : Bytes}
    (h : ∀ octets, Follow (next :: later) octets → ¬octets <+: bytes) (start i : Nat)
    (taken : Bytes) (bits : Nat) :
    ∃ fault, decodeFrom (.inside start taken bits next later) i bytes = .error fault ∧
      fault.offset = start := by
  induction bytes generalizing next later i taken bits with
  | nil => exact ⟨_, rfl, rfl⟩
  | cons b rest ih =>
    rw [decodeFrom]
    split
    · next hb =>
      cases later with
      | nil =>
        have hfollow : Follow [next] [b] := follow_cons.mpr ⟨b, [], rfl, hb, follow_nil.mpr rfl⟩
        exact absurd ⟨rest, rfl⟩ (h [b] hfollow)
      | cons range later =>
        refine ih (fun octets hfollow hprefix => ?_) _ _ _
        exact h (b :: octets) (follow_cons.mpr ⟨b, octets, rfl, hb, hfollow⟩)
          (List.cons_prefix_cons.mpr ⟨rfl, hprefix⟩)
    · exact ⟨_, rfl, rfl⟩

theorem decodeFrom_encodeChar (c : Char) (i : Nat) (rest : Bytes) :
    decodeFrom .between i (String.utf8EncodeChar c ++ rest) =
      (decodeFrom .between (i + (String.utf8EncodeChar c).length) rest).map (c :: ·) := by
  obtain ⟨b, octets, ⟨bits, following⟩, ho, hlead, hfollow, hchar⟩ := exists_lead c
  rw [ho, List.cons_append, decodeFrom, hlead]
  cases following with
  | nil =>
    obtain rfl := follow_nil.mp hfollow
    rw [← hchar]
    rfl
  | cons next later =>
    have hlength : i + 1 + octets.length = i + (b :: octets).length := by
      rw [List.length_cons]
      omega
    dsimp only
    rw [decodeFrom_follow hfollow, hchar, hlength]

/-- Octets that begin with no character are a fault where they begin. -/
theorem decodeFrom_stuck {bytes : Bytes} (hne : bytes ≠ [])
    (h : ∀ c, ¬String.utf8EncodeChar c <+: bytes) (i : Nat) :
    ∃ fault, decodeFrom .between i bytes = .error fault ∧ fault.offset = i := by
  cases bytes with
  | nil => exact absurd rfl hne
  | cons b rest =>
    have hrefused {lead : Lead} {octets : Bytes} (hlead : Lead.ofOctet? b = some lead)
        (hfollow : Follow lead.following octets) : ¬octets <+: rest := by
      intro hprefix
      refine h (Char.ofNat (carried lead.bits octets)) ?_
      rw [(form_of_lead hlead hfollow).encode]
      exact List.cons_prefix_cons.mpr ⟨rfl, hprefix⟩
    rw [decodeFrom]
    split
    · exact ⟨_, rfl, rfl⟩
    · next hlead => exact absurd List.nil_prefix (hrefused hlead (follow_nil.mpr rfl))
    · next hlead => exact decodeFrom_refused (fun _ hfollow => hrefused hlead hfollow) _ _ _ _

/-! ### Reading a text -/

theorem encode_cons (c : Char) (t : Text) : encode (c :: t) = String.utf8EncodeChar c ++ encode t :=
  List.flatMap_cons

theorem decodeFrom_encode (t : Text) (i : Nat) (rest : Bytes) :
    decodeFrom .between i (encode t ++ rest) =
      (decodeFrom .between (i + (encode t).length) rest).map (t ++ ·) := by
  induction t generalizing i with
  | nil =>
    change decodeFrom .between i rest = (decodeFrom .between i rest).map ([] ++ ·)
    cases decodeFrom .between i rest <;> rfl
  | cons c t ih =>
    rw [encode_cons, List.append_assoc, decodeFrom_encodeChar, ih, List.length_append,
      Nat.add_assoc]
    cases decodeFrom .between _ rest <;> rfl

/-- Reading goes through a text with which the octets begin, up to their end or to a fault. -/
theorem decodeFrom_between (i : Nat) (bytes : Bytes) :
    ∃ t rest, bytes = encode t ++ rest ∧
      ((rest = [] ∧ decodeFrom .between i bytes = .ok t) ∨
        ∃ fault, decodeFrom .between i bytes = .error fault ∧
          fault.offset = i + (encode t).length) := by
  induction hn : bytes.length using Nat.strongRecOn generalizing i bytes with
  | ind n ih =>
    by_cases hc : ∃ c, String.utf8EncodeChar c <+: bytes
    · obtain ⟨c, behind, rfl⟩ := hc
      rw [List.length_append, String.length_utf8EncodeChar] at hn
      have hpos := c.utf8Size_pos
      obtain ⟨t, rest, hbehind, hend⟩ :=
        ih behind.length (by omega) (i + (String.utf8EncodeChar c).length) behind rfl
      refine ⟨c :: t, rest, by rw [encode_cons, hbehind, List.append_assoc], ?_⟩
      rw [decodeFrom_encodeChar]
      rcases hend with ⟨hrest, hrun⟩ | ⟨fault, hrun, hoffset⟩
      · exact .inl ⟨hrest, by rw [hrun]; rfl⟩
      · refine .inr ⟨fault, by rw [hrun]; rfl, ?_⟩
        rw [hoffset, encode_cons, List.length_append, Nat.add_assoc]
    · refine ⟨[], bytes, rfl, ?_⟩
      by_cases hne : bytes = []
      · exact .inl ⟨hne, by rw [hne]; rfl⟩
      · exact .inr (decodeFrom_stuck hne (not_exists.mp hc) i)

theorem le_offset {i : Nat} {bytes : Bytes} {fault : Fault}
    (h : decodeFrom .between i bytes = .error fault) : i ≤ fault.offset := by
  obtain ⟨t, rest, -, ⟨-, hrun⟩ | ⟨fault', hrun, hoffset⟩⟩ := decodeFrom_between i bytes
  · rw [hrun] at h
    cases h
  · obtain rfl : fault' = fault := by simpa [hrun] using h
    omega

theorem decode_encode (t : Text) : decode (encode t) = .ok t := by
  have h := decodeFrom_encode t 0 []
  simpa [decode, decodeFrom, Except.map] using h

theorem encode_injective {t u : Text} (h : encode t = encode u) : t = u := by
  have hdecode := decode_encode t
  rw [h, decode_encode] at hdecode
  exact (Except.ok.inj hdecode).symm

theorem decode_eq_ok {bytes : Bytes} {t : Text} : decode bytes = .ok t ↔ encode t = bytes := by
  constructor
  · intro h
    obtain ⟨u, rest, hbytes, ⟨rfl, hrun⟩ | ⟨fault, hrun, -⟩⟩ := decodeFrom_between 0 bytes
    · obtain rfl : u = t := by simpa [decode, hrun] using h
      rw [hbytes, List.append_nil]
    · rw [decode, hrun] at h
      cases h
  · rintro rfl
    exact decode_encode t

/-- The lengths of the prefixes of the octets that encode a text. -/
def textLengths (bytes : Bytes) : Set Nat :=
  {n | ∃ t, encode t <+: bytes ∧ (encode t).length = n}

theorem decode_error {bytes : Bytes} {fault : Fault} (h : decode bytes = .error fault) :
    IsGreatest (textLengths bytes) fault.offset := by
  constructor
  · obtain ⟨t, rest, hbytes, ⟨-, hrun⟩ | ⟨fault', hrun, hoffset⟩⟩ := decodeFrom_between 0 bytes
    · rw [decode, hrun] at h
      cases h
    · obtain rfl : fault' = fault := by simpa [decode, hrun] using h
      exact ⟨t, ⟨rest, hbytes.symm⟩, by omega⟩
  -- Behind a prefix that encodes a text the fault cannot lie in front of its end.
  · rintro n ⟨t, ⟨rest, rfl⟩, rfl⟩
    rw [decode, decodeFrom_encode, Nat.zero_add] at h
    cases hrun : decodeFrom .between (encode t).length rest with
    | ok u => simp [hrun, Except.map] at h
    | error fault' =>
      obtain rfl : fault' = fault := by simpa [hrun, Except.map] using h
      exact le_offset hrun

/-- A message that says where the octets stop being a text: at a single octet, or from this offset
to another. -/
def NamesStart (message : Text) (start : Nat) : Prop :=
  ∃ what behind : Text, message = "'utf-8' codec can't decode ".toList ++ what ++
      " in position ".toList ++ Text.ofNat start ++ behind ∧
    (what = "bytes".toList ∨ ∃ octet : UInt8, what = "byte 0x".toList ++ Text.hex 2 octet.toNat) ∧
    (behind.head? = some ':' ∨ behind.head? = some '-')

theorem Fault.namesStart (fault : Fault) : NamesStart fault.message fault.offset := by
  unfold message place
  split
  · next b _ =>
    exact ⟨"byte 0x".toList ++ Text.hex 2 b.toNat, ": ".toList ++ fault.reason.text, by simp,
      .inr ⟨b, rfl⟩, .inl rfl⟩
  · exact ⟨"bytes".toList, "-".toList ++ Text.ofNat (fault.offset + fault.octets.length - 1) ++
      ": ".toList ++ fault.reason.text, by simp, .inl rfl, .inr rfl⟩

end DqlScan.Utf8
