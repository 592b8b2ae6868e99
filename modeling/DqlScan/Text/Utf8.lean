import DqlScan.Text.Basic

/-!
# UTF-8

`decode` reads octets one at a time and stops at the first that cannot be part of a character;
the fault says where the ill-formed sequence starts and which octets it has.
-/

namespace DqlScan.Utf8

def encode (t : Text) : Bytes := t.flatMap String.utf8EncodeChar

structure OctetRange where
  first : UInt8
  last : UInt8

def OctetRange.contains (r : OctetRange) (b : UInt8) : Bool := r.first ≤ b && b ≤ r.last

def continuation : OctetRange := ⟨0x80, 0xBF⟩

/-- What a first octet announces: the bits that it carries and the octets that must follow. -/
structure Lead where
  bits : Nat
  following : List OctetRange

/-- The second octet is restricted where a wider choice would allow a longer form than needed,
a surrogate, or a value above U+10FFFF. -/
def Lead.ofOctet? (b : UInt8) : Option Lead :=
  if b ≤ 0x7F then some ⟨b.toNat, []⟩
  else if b ≤ 0xC1 then none
  else if b ≤ 0xDF then some ⟨b.toNat - 0xC0, [continuation]⟩
  else if b ≤ 0xEF then
    let second : OctetRange :=
      if b = 0xE0 then ⟨0xA0, 0xBF⟩ else if b = 0xED then ⟨0x80, 0x9F⟩ else continuation
    some ⟨b.toNat - 0xE0, [second, continuation]⟩
  else if b ≤ 0xF4 then
    let second : OctetRange :=
      if b = 0xF0 then ⟨0x90, 0xBF⟩ else if b = 0xF4 then ⟨0x80, 0x8F⟩ else continuation
    some ⟨b.toNat - 0xF0, [second, continuation, continuation]⟩
  else none

inductive Reason where
  | invalidStart
  | invalidContinuation
  | unexpectedEnd
  deriving DecidableEq

/-- The first ill-formed sequence: where it starts, and its octets as far as they were acceptable
(of an octet that starts nothing, that octet). -/
structure Fault where
  reason : Reason
  offset : Nat
  octets : Bytes
  deriving DecidableEq

/-- Either between two characters, or inside one: where it started, its octets so far, the bits
they carry, and the octets that must follow. -/
inductive Progress where
  | between
  | inside (start : Nat) (taken : Bytes) (bits : Nat) (next : OctetRange) (later : List OctetRange)

def decodeFrom : Progress → Nat → Bytes → Except Fault Text
  | .between, _, [] => .ok []
  | .inside start taken _ _ _, _, [] => .error ⟨.unexpectedEnd, start, taken⟩
  | .between, i, b :: rest =>
    match Lead.ofOctet? b with
    | none => .error ⟨.invalidStart, i, [b]⟩
    | some ⟨bits, []⟩ => (decodeFrom .between (i + 1) rest).map (Char.ofNat bits :: ·)
    | some ⟨bits, next :: later⟩ => decodeFrom (.inside i [b] bits next later) (i + 1) rest
  | .inside start taken bits next later, i, b :: rest =>
    if next.contains b then
      let bits := bits * 64 + (b.toNat - 0x80)
      match later with
      | [] => (decodeFrom .between (i + 1) rest).map (Char.ofNat bits :: ·)
      | next :: later => decodeFrom (.inside start (taken ++ [b]) bits next later) (i + 1) rest
    else .error ⟨.invalidContinuation, start, taken⟩

def decode (bytes : Bytes) : Except Fault Text := decodeFrom .between 0 bytes

def Reason.text : Reason → Text
  | .invalidStart => "invalid start byte".toList
  | .invalidContinuation => "invalid continuation byte".toList
  | .unexpectedEnd => "unexpected end of data".toList

/-- Where the sequence stands: its octet and offset, or its first and last offset. -/
def Fault.place (f : Fault) : Text :=
  match f.octets with
  | [b] => "byte 0x".toList ++ Text.hex 2 b.toNat ++ " in position ".toList ++ Text.ofNat f.offset
  | octets => "bytes in position ".toList ++ Text.ofNat f.offset ++ "-".toList ++
      Text.ofNat (f.offset + octets.length - 1)

def Fault.message (f : Fault) : Text :=
  "'utf-8' codec can't decode ".toList ++ f.place ++ ": ".toList ++ f.reason.text

/-- How many octets must be there for the fault to show: up to the octet that cannot follow, and
one more if it could have followed but for the rule against surrogates. -/
def Fault.shownBy (f : Fault) (bytes : Bytes) : Nat :=
  match f.reason with
  | .invalidStart => f.offset + 1
  | .unexpectedEnd => f.offset + f.octets.length + 1
  | .invalidContinuation =>
    let refused := (bytes.drop (f.offset + f.octets.length)).head?
    if f.octets = [0xED] ∧ refused.any (OctetRange.contains ⟨0xA0, 0xBF⟩) then f.offset + 3
    else f.offset + f.octets.length + 1

/-- The content of a file that is read in blocks of a fixed size. A fault counts its offset from
the first octet that was not yet decoded when the block that shows it was read; the end of the
file is a block of its own. -/
def decodeBlocks (size : Nat) (bytes : Bytes) : Except Fault Text :=
  match decode bytes with
  | .ok text => .ok text
  | .error fault =>
    let shown := fault.shownBy bytes
    let before := if bytes.length < shown then bytes.length else (shown - 1) / size * size
    let undecoded := match decode (bytes.take before) with
      | .ok _ => before
      | .error earlier => earlier.offset
    .error { fault with offset := fault.offset - undecoded }

end DqlScan.Utf8
