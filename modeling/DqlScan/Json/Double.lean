import DqlScan.Text.Basic

/-!
# Double-precision numbers

A finite double is a sign and `mantissa · 2 ^ exponent`. Decimals are rounded to the nearest double
in exact arithmetic, and a double is written with the fewest digits that read back as it.
-/

namespace DqlScan

inductive Double where
  | nan
  | infinite (negative : Bool)
  /-- The mantissa has 53 bits, or fewer if the exponent is the least, -1074. -/
  | finite (negative : Bool) (mantissa : Nat) (exponent : Int)
  deriving DecidableEq

namespace Double

/-- The quotient rounded to the nearest integer, of two the even one. -/
def roundDiv (num den : Nat) : Nat :=
  let rest := 2 * (num % den)
  if den < rest ∨ (rest = den ∧ (num / den) % 2 = 1) then num / den + 1 else num / den

/-- Numerator and denominator of `num / den / base ^ e`. -/
def scaled (base num den : Nat) (e : Int) : Nat × Nat :=
  match e with
  | .ofNat n => (num, den * Nat.pow base n)
  | .negSucc n => (num * Nat.pow base (n + 1), den)

/-- Mantissa and exponent of the double nearest to a positive quotient; none if it is too large. -/
def nearest? (num den : Nat) : Option (Nat × Int) :=
  let low : Int := num.log2 - den.log2 - 53
  let quotient := scaled 2 num den low
  let e := max (-1074) (if quotient.1 / quotient.2 < Nat.pow 2 53 then low else low + 1)
  let quotient := scaled 2 num den e
  let m := roundDiv quotient.1 quotient.2
  let rounded := if m = Nat.pow 2 53 then (Nat.pow 2 52, e + 1) else (m, e)
  if 971 < rounded.2 then none else some rounded

/-- Mantissa and exponent of the double nearest to `digits · 10 ^ e`. Beyond the two bounds, by
the number of digits before the point, everything is too large or rounds to zero. -/
def nearestDecimal? (digits : Nat) (e : Int) : Option (Nat × Int) :=
  let size := (Nat.toDigits 10 digits).length + e
  if digits = 0 ∨ size < -330 then some (0, -1074)
  else if 310 < size then none
  else
    let quotient := scaled 10 digits 1 (-e)
    nearest? quotient.1 quotient.2

def ofDecimal (negative : Bool) (digits : Nat) (e : Int) : Double :=
  match nearestDecimal? digits e with
  | some (m, e) => .finite negative m e
  | none => .infinite negative

/-- How many digits the positive quotient has before the point; of a quotient below one, the
negative number of zeros after the point. -/
def decimalPoint (num den : Nat) : Int :=
  if den ≤ num then (Nat.toDigits 10 (num / den)).length
  else -(((List.range 400).find? fun zeros => den ≤ num * Nat.pow 10 (zeros + 1)).getD 0 : Nat)

/-- Of the two decimals `d · 10 ^ e` that enclose the quotient, the one that reads back as the
given double: the nearer if both do, of two equally near the even one. -/
def neighbour? (num den : Nat) (double : Nat × Int) (e : Int) : Option Nat :=
  let quotient := scaled 10 num den e
  let low := quotient.1 / quotient.2
  match decide (nearestDecimal? low e = some double),
    decide (nearestDecimal? (low + 1) e = some double) with
  | true, true => some (roundDiv quotient.1 quotient.2)
  | true, false => some low
  | false, true => some (low + 1)
  | false, false => none

/-- The digits of a decimal and its exponent: the fewest digits that read back as the positive
double, nearest to it. Seventeen digits are always enough. -/
def shortest (m : Nat) (e : Int) : Nat × Int :=
  let quotient := scaled 2 m 1 (-e)
  let point := decimalPoint quotient.1 quotient.2
  let found := (List.range 17).findSome? fun n =>
    let e10 := point - (n + 1 : Nat)
    (neighbour? quotient.1 quotient.2 (m, e) e10).map (·, e10)
  found.getD (0, 0)

/-- Positional notation is for numbers from `10 ^ leastExponent` to below `10 ^ mostExponent`. -/
structure NumberStyle where
  leastExponent : Int
  mostExponent : Int
  /-- How many digits an exponent has at least. -/
  exponentWidth : Nat

def jsonStyle : NumberStyle := ⟨-4, 16, 2⟩

/-- `0.ds · 10 ^ point`, written in positional notation. -/
def positional (ds : Text) (point : Int) : Text :=
  match point with
  | .ofNat n =>
    if n = 0 then "0.".toList ++ ds
    else if ds.length ≤ n then ds.rightpad n '0' ++ ".0".toList
    else ds.take n ++ '.' :: ds.drop n
  | .negSucc n => "0.".toList ++ List.replicate (n + 1) '0' ++ ds

/-- `d.s · 10 ^ e`, written with an exponent. -/
def exponential (width : Nat) (ds : Text) (e : Int) : Text :=
  let tail := ds.drop 1
  let fraction := if tail = [] then [] else '.' :: tail
  let sign := if e < 0 then '-' else '+'
  ds.take 1 ++ fraction ++ 'e' :: sign :: (Text.ofNat e.natAbs).leftpad width '0'

def magnitudeText (style : NumberStyle) (m : Nat) (e : Int) : Text :=
  let found := shortest m e
  let digits := Text.ofNat found.1
  let point := digits.length + found.2
  let ds := (digits.reverse.dropWhile (· = '0')).reverse
  if style.leastExponent ≤ point - 1 ∧ point - 1 < style.mostExponent then positional ds point
  else exponential style.exponentWidth ds (point - 1)

def text : Double → Text
  | .nan => "NaN".toList
  | .infinite negative => (if negative then ['-'] else []) ++ "Infinity".toList
  | .finite negative m e =>
    (if negative then ['-'] else []) ++
      (if m = 0 then "0.0".toList else magnitudeText jsonStyle m e)

end Double

end DqlScan
