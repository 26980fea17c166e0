/-!
# Double-precision numbers

A double is kept as its IEEE 754 interchange word, so two doubles are equal as data exactly when
their words are. `magnitude` decodes the word into a natural number times a power of two;
`equals` and `equalsInt` compare values. `Exact` holds the values of doubles and of integers, and
`Exact.isLess` orders them.
-/

namespace StateWalk

/-- A double, by its 64-bit interchange word. -/
structure Binary64 where
  bits : UInt64
  deriving DecidableEq, Inhabited

namespace Binary64

/-- The absolute value of a double: `finite m q` is `m · 2 ^ q`. -/
inductive Magnitude where
  | finite (significand : Nat) (exponent : Int)
  | infinite
  | notANumber
  deriving DecidableEq

def isNegative (x : Binary64) : Bool := Nat.pow 2 63 ≤ x.bits.toNat

/-- The eleven exponent bits. -/
def exponentField (x : Binary64) : Nat := x.bits.toNat / Nat.pow 2 52 % Nat.pow 2 11

/-- The fifty-two fraction bits. -/
def fraction (x : Binary64) : Nat := x.bits.toNat % Nat.pow 2 52

def magnitude (x : Binary64) : Magnitude :=
  if x.exponentField = 2047 then
    if x.fraction = 0 then .infinite else .notANumber
  else if x.exponentField = 0 then .finite x.fraction (-1074)
  else .finite (x.fraction + Nat.pow 2 52) ((x.exponentField : Int) - 1075)

/-- The next double below is half as far away as the next one above. -/
def closeBelow (x : Binary64) : Bool := x.fraction == 0 && decide (1 < x.exponentField)

def isNotANumber (x : Binary64) : Bool := x.magnitude == .notANumber

def isZero (x : Binary64) : Bool := x.exponentField == 0 && x.fraction == 0

/-- Equality of values: both zeros are equal, and a number that is none equals nothing. -/
def equals (x y : Binary64) : Bool :=
  !x.isNotANumber && (decide (x = y) || (x.isZero && y.isZero))

/-- The integer `n` has exactly the value of `x`. -/
def equalsInt (x : Binary64) (n : Int) : Bool :=
  match x.magnitude with
  | .finite m q =>
    let signed : Int := if x.isNegative then -m else m
    if 0 ≤ q then signed * Nat.pow 2 q.toNat == n else signed == n * Nat.pow 2 (-q).toNat
  | _ => false

/-- An exact number: `finite m q` is `m · 2 ^ q`. -/
inductive Exact where
  | finite (significand exponent : Int)
  | infinite (negative : Bool)
  | notANumber

namespace Exact

/-- Two finite numbers are compared at the smaller of their exponents; a number that is none is
neither less nor greater than any other. -/
def isLess : Exact → Exact → Bool
  | notANumber, _ | _, notANumber => false
  | infinite x, infinite y => x && !y
  | infinite x, finite _ _ => x
  | finite _ _, infinite y => !y
  | finite m p, finite n q =>
    let low := min p q
    decide (m * Nat.pow 2 (p - low).toNat < n * Nat.pow 2 (q - low).toNat)

end Exact

def exact (x : Binary64) : Exact :=
  match x.magnitude with
  | .finite m q => .finite (if x.isNegative then -m else m) q
  | .infinite => .infinite x.isNegative
  | .notANumber => .notANumber

end Binary64

end StateWalk
