import StateWalk.Number.Binary64
import StateWalk.Number.Shortest

/-!
# The written form of a double

`Binary64.write` writes the shortest decimal of a double in a `Layout`, the record of the format's
own decisions. Keys and messages share every decision except the names of the values that have no
digits.
-/

namespace StateWalk

/-- How a number's digits are laid out. -/
structure Layout where
  /-- Least exponent of the leading digit that is written without an exponent. -/
  positionalFrom : Int
  /-- Least exponent of the leading digit that is too large to be written without one. -/
  positionalBelow : Int
  /-- Least number of digits of a written exponent. -/
  exponentDigits : Nat
  infinity : String
  notANumber : String

namespace Layout

/-- Numbers in keys. -/
def keys : Layout := ⟨-4, 16, 2, "Infinity", "NaN"⟩

/-- Numbers in messages. -/
def messages : Layout := { keys with infinity := "inf", notANumber := "nan" }

def exponent (l : Layout) (e : Int) : List Char :=
  let digits := Nat.toDigits 10 e.natAbs
  'e' :: (if e < 0 then '-' else '+') ::
    (List.replicate (l.exponentDigits - digits.length) '0' ++ digits)

/-- A point stands between the units and at least one further digit, except in a number with an
exponent and a single digit. -/
def digits (l : Layout) (ds : List Char) (e : Int) : List Char :=
  if l.positionalFrom ≤ e ∧ e < l.positionalBelow then
    if e < 0 then '0' :: '.' :: (List.replicate (-e - 1).toNat '0' ++ ds)
    else
      let whole := e.toNat + 1
      if ds.length ≤ whole then ds ++ List.replicate (whole - ds.length) '0' ++ ['.', '0']
      else ds.take whole ++ '.' :: ds.drop whole
  else
    match ds with
    | [] => []
    | [d] => d :: l.exponent e
    | d :: rest => d :: '.' :: (rest ++ l.exponent e)

end Layout

namespace Binary64

/-- The absolute value, as text. -/
def writeMagnitude (x : Binary64) (l : Layout) : List Char :=
  match x.magnitude with
  | .notANumber => l.notANumber.toList
  | .infinite => l.infinity.toList
  | .finite m q =>
    if m = 0 then l.digits ['0'] 0
    else
      let d := Shortest.shortest m q x.closeBelow
      let ds := Nat.toDigits 10 d.digits
      l.digits ds (d.exponent + ds.length - 1)

def write (x : Binary64) (l : Layout) : List Char :=
  if x.isNegative && !x.isNotANumber then '-' :: x.writeMagnitude l else x.writeMagnitude l

end Binary64

end StateWalk
