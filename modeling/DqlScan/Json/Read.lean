import DqlScan.Json.Basic
import DqlScan.Text.Basic

/-!
# Reading JSON

A recursive descent on the text. Beside what the standard allows, a number may be `NaN`,
`Infinity` or `-Infinity`. A problem keeps the text from its place on, which gives the offset.
Reading stops as well where the text exceeds the limits that the reader sets: at an integer with
too many digits, and where an array or object starts inside too many others.
-/

namespace DqlScan.Json

inductive Problem where
  | expectedValue
  | expectedName
  | expectedColon
  | expectedComma
  | unterminatedString
  | controlCharacter
  | unknownEscape
  | badCodeEscape
  | extraData
  | byteOrderMark
  deriving DecidableEq

def Problem.text : Problem → Text
  | .expectedValue => "Expecting value".toList
  | .expectedName => "Expecting property name enclosed in double quotes".toList
  | .expectedColon => "Expecting ':' delimiter".toList
  | .expectedComma => "Expecting ',' delimiter".toList
  | .unterminatedString => "Unterminated string starting at".toList
  | .controlCharacter => "Invalid control character at".toList
  | .unknownEscape => "Invalid \\escape".toList
  | .badCodeEscape => "Invalid \\uXXXX escape".toList
  | .extraData => "Extra data".toList
  | .byteOrderMark => "Unexpected UTF-8 BOM (decode using utf-8-sig)".toList

structure Limits where
  /-- The digits of an integer. -/
  digits : Nat
  /-- The arrays and objects that stand inside one another. -/
  depth : Nat

/-- The limits for what stands in an array or object, if there may be one. -/
def Limits.inner? (l : Limits) : Option Limits :=
  match l.depth with
  | 0 => none
  | depth + 1 => some { l with depth }

inductive Excess where
  | digits (count most : Nat)
  | arrayDepth
  | objectDepth
  deriving DecidableEq

def Excess.text : Excess → Text
  | .digits count most =>
    "Exceeds the limit (".toList ++ Text.ofNat most ++
      " digits) for integer string conversion: value has ".toList ++ Text.ofNat count ++
      " digits; use sys.set_int_max_str_digits() to increase the limit".toList
  | .arrayDepth =>
    "maximum recursion depth exceeded while decoding a JSON array from a unicode string".toList
  | .objectDepth =>
    "maximum recursion depth exceeded while decoding a JSON object from a unicode string".toList

/-- Where reading stops: at a problem, with the text from its place on, or at a limit. -/
inductive Stop where
  | problem (problem : Problem) (left : Text)
  | excess (excess : Excess)

/-- What a reader has read and the text after it. -/
abbrev Read (α : Type) := Except Stop (α × Text)

def skip (t : Text) : Text := t.dropWhile fun c => c = ' ' || c = '\t' || c = '\n' || c = '\r'

/-! ### Strings -/

def hexValue? (c : Char) : Option Nat :=
  if '0' ≤ c ∧ c ≤ '9' then some (c.toNat - '0'.toNat)
  else if 'a' ≤ c ∧ c ≤ 'f' then some (c.toNat - 'a'.toNat + 10)
  else if 'A' ≤ c ∧ c ≤ 'F' then some (c.toNat - 'A'.toNat + 10)
  else none

/-- The number that four hexadecimal digits write. -/
def codeUnit? (a b c d : Char) : Option Nat := do
  return (((← hexValue? a) * 16 + (← hexValue? b)) * 16 + (← hexValue? c)) * 16 + (← hexValue? d)

def unescape? : Char → Option Char
  | '"' => some '"'
  | '\\' => some '\\'
  | '/' => some '/'
  | 'b' => some '\x08'
  | 'f' => some '\x0c'
  | 'n' => some '\n'
  | 'r' => some '\r'
  | 't' => some '\t'
  | _ => none

/-- The code units of a string up to its closing quotation mark. `start` is the text from the
opening one on. After `\u` there are four digits and, inside the string, something more. -/
def readUnits (start : Text) : Text → Read (List Nat)
  | [] => .error (.problem .unterminatedString start)
  | c :: rest =>
    if c = '"' then .ok ([], rest)
    else if c = '\\' then
      match rest with
      | [] => .error (.problem .unterminatedString start)
      | 'u' :: a :: b :: c :: d :: next :: more =>
        match codeUnit? a b c d with
        | none => .error (.problem .badCodeEscape rest)
        | some unit => (readUnits start (next :: more)).map fun r => (unit :: r.1, r.2)
      | e :: more =>
        if e = 'u' then .error (.problem .badCodeEscape rest)
        else match unescape? e with
          | none => .error (.problem .unknownEscape (c :: rest))
          | some x => (readUnits start more).map fun r => (x.toNat :: r.1, r.2)
    else if c < ' ' then .error (.problem .controlCharacter (c :: rest))
    else (readUnits start rest).map fun r => (c.toNat :: r.1, r.2)

/-- The character of a code unit; of half a pair, the replacement character. -/
def unitChar (unit : Nat) : Char :=
  if 0xD800 ≤ unit ∧ unit ≤ 0xDFFF then '\ufffd' else Char.ofNat unit

/-- The text of code units: a high and a low surrogate side by side are one character. -/
def joinUnits : List Nat → Text
  | high :: low :: rest =>
    if 0xD800 ≤ high ∧ high ≤ 0xDBFF ∧ 0xDC00 ≤ low ∧ low ≤ 0xDFFF then
      Char.ofNat (0x10000 + (high - 0xD800) * 0x400 + (low - 0xDC00)) :: joinUnits rest
    else unitChar high :: joinUnits (low :: rest)
  | [unit] => [unitChar unit]
  | [] => []

/-- Reads a string of which `start` is the text and `rest` what follows the opening mark. -/
def readString (start rest : Text) : Read Text :=
  (readUnits start rest).map fun r => (joinUnits r.1, r.2)

/-! ### Numbers -/

def digits (t : Text) : Text := t.takeWhile Char.isDigit

def digitsValue (ds : Text) : Nat := Nat.ofDigitChars 10 ds 0

/-- The digits of a fraction and the text after it; no digits if there is no fraction. -/
def readFraction (t : Text) : Text × Text :=
  match t with
  | '.' :: rest => if digits rest = [] then ([], t) else (digits rest, rest.dropWhile Char.isDigit)
  | _ => ([], t)

def readExponent? (t : Text) : Option (Int × Text) :=
  match t with
  | e :: rest =>
    if e = 'e' ∨ e = 'E' then
      let unsigned := match rest with
        | '+' :: more => more
        | '-' :: more => more
        | _ => rest
      let n : Int := digitsValue (digits unsigned)
      if digits unsigned = [] then none
      else some (if rest.head? = some '-' then -n else n, unsigned.dropWhile Char.isDigit)
    else none
  | [] => none

/-- The digits of an integer part, which starts with a zero only if it is zero. -/
def readWhole? (t : Text) : Option (Text × Text) :=
  match t with
  | '0' :: rest => some (['0'], rest)
  | _ => if digits t = [] then none else some (digits t, t.dropWhile Char.isDigit)

def ofDigits (limits : Limits) (negative : Bool) (ds : Text) : Except Stop Json :=
  if limits.digits < ds.length then .error (.excess (.digits ds.length limits.digits))
  else
    let n : Int := digitsValue ds
    .ok (.int (if negative then -n else n))

/-- Reads the number that a text starts with, as far as it can be read as one. Only with a
fraction or an exponent it is a double. -/
def readNumber (limits : Limits) (t : Text) : Read Json :=
  let negative : Bool := t.head? = some '-'
  match readWhole? (if negative then t.tail else t) with
  | none => .error (.problem .expectedValue t)
  | some (whole, rest) =>
    let fraction := readFraction rest
    match fraction.1, readExponent? fraction.2 with
    | [], none => (ofDigits limits negative whole).map fun n => (n, rest)
    | ds, exponent =>
      let e := (exponent.map (·.1)).getD 0
      let rest := (exponent.map (·.2)).getD fraction.2
      .ok (.double (.ofDecimal negative (digitsValue (whole ++ ds)) (e - ds.length)), rest)

/-! ### Values -/

def words : List (Text × Json) :=
  [("null".toList, .null), ("true".toList, .bool true), ("false".toList, .bool false),
    ("NaN".toList, .double .nan), ("Infinity".toList, .double (.infinite false)),
    ("-Infinity".toList, .double (.infinite true))]

def readWord? (t : Text) : Option (Json × Text) :=
  words.findSome? fun (word, value) => (word.isPrefixOf? t).map (value, ·)

mutual

/-- Reads a value within limits. The second argument bounds the steps of the recursion. -/
def readValue (limits : Limits) : Nat → Text → Read Json
  | 0, t => .error (.problem .expectedValue t)
  | n + 1, t =>
    match t with
    | '"' :: rest => (readString t rest).map fun r => (.str r.1, r.2)
    | '\x7b' :: rest =>
      match limits.inner? with
      | none => .error (.excess .objectDepth)
      | some inner =>
        match skip rest with
        | '\x7d' :: after => .ok (.obj [], after)
        | first => (readMembers inner n [] first).map fun r => (.obj r.1, r.2)
    | '[' :: rest =>
      match limits.inner? with
      | none => .error (.excess .arrayDepth)
      | some inner =>
        match skip rest with
        | ']' :: after => .ok (.arr [], after)
        | first => (readItems inner n first).map fun r => (.arr r.1, r.2)
    | _ =>
      match readWord? t with
      | some r => .ok r
      | none => readNumber limits t

def readItems (limits : Limits) : Nat → Text → Read (List Json)
  | 0, t => .error (.problem .expectedValue t)
  | n + 1, t =>
    match readValue limits n t with
    | .error stop => .error stop
    | .ok (item, rest) =>
      match skip rest with
      | ']' :: after => .ok ([item], after)
      | ',' :: more => (readItems limits n (skip more)).map fun r => (item :: r.1, r.2)
      | other => .error (.problem .expectedComma other)

/-- Reads the members of an object up to its end. A later member replaces an earlier one of the
same name. -/
def readMembers (limits : Limits) :
    Nat → List (Text × Json) → Text → Read (List (Text × Json))
  | 0, _, t => .error (.problem .expectedName t)
  | n + 1, members, t =>
    match t with
    | '"' :: rest =>
      match readString t rest with
      | .error stop => .error stop
      | .ok (name, rest) =>
        match skip rest with
        | ':' :: more =>
          match readValue limits n (skip more) with
          | .error stop => .error stop
          | .ok (value, rest) =>
            let members := setMember name value members
            match skip rest with
            | '\x7d' :: after => .ok (members, after)
            | ',' :: more => readMembers limits n members (skip more)
            | other => .error (.problem .expectedComma other)
        | other => .error (.problem .expectedColon other)
    | _ => .error (.problem .expectedName t)

end

inductive Fault where
  | problem (problem : Problem) (offset : Nat) (position : Position)
  | excess (excess : Excess)
  deriving DecidableEq

def Fault.message : Fault → Text
  | .problem p offset position =>
    p.text ++ ": line ".toList ++ Text.ofNat position.line ++ " column ".toList ++
      Text.ofNat (position.column + 1) ++ " (char ".toList ++ Text.ofNat offset ++ ")".toList
  | .excess e => e.text

def Stop.fault (t : Text) : Stop → Fault
  | .problem p left =>
    let offset := t.length - left.length
    .problem p offset (Text.position t offset)
  | .excess e => .excess e

def readDocument (limits : Limits) (t : Text) : Except Stop Json :=
  if t.head? = some '\ufeff' then .error (.problem .byteOrderMark t)
  else
    match readValue limits (2 * t.length + 2) (skip t) with
    | .error stop => .error stop
    | .ok (value, rest) =>
      match skip rest with
      | [] => .ok value
      | extra => .error (.problem .extraData extra)

def read (limits : Limits) (t : Text) : Except Fault Json :=
  (readDocument limits t).mapError (·.fault t)

end DqlScan.Json
