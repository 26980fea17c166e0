/-!
# The shortest decimal of a binary number

A positive binary number `m · 2 ^ q` stands for every real that rounds to it. `shortest` gives the
decimal with the fewest digits inside that interval, and of two with the same number of digits the
nearer one, or the one with the even last digit at equal distance.

For each number of digits only the two neighbours of the value on that decimal grid are tried: if
any point of the grid lies in the interval, one of the neighbours does. All arithmetic is on
natural numbers.
-/

namespace StateWalk.Shortest

/-- A value and the ends of its rounding interval, as numerators over one denominator. -/
structure Scaled where
  lower : Nat
  value : Nat
  upper : Nat
  unit : Nat
  /-- The ends round to the value too. -/
  closed : Bool

/-- The decimal `digits · 10 ^ exponent`. -/
structure Decimal where
  digits : Nat
  exponent : Int
  deriving DecidableEq, Inhabited

/-- The interval of `m · 2 ^ q`; `closeBelow` halves its lower part. -/
def Scaled.ofBinary (m : Nat) (q : Int) (closeBelow : Bool) : Scaled :=
  let up := Nat.pow 2 (q - 2).toNat
  { lower := (4 * m - if closeBelow then 1 else 2) * up
    value := 4 * m * up
    upper := (4 * m + 2) * up
    unit := Nat.pow 2 (2 - q).toNat
    closed := m % 2 == 0 }

/-- Measure the value in units of `10 ^ k`. -/
def Scaled.inUnits (s : Scaled) (k : Int) : Scaled :=
  let up := Nat.pow 10 (-k).toNat
  { s with
    lower := s.lower * up
    value := s.value * up
    upper := s.upper * up
    unit := s.unit * Nat.pow 10 k.toNat }

/-- The whole number `c`, in the current units, lies in the interval. -/
def Scaled.contains (s : Scaled) (c : Nat) : Bool :=
  if s.closed then s.lower ≤ c * s.unit && c * s.unit ≤ s.upper
  else s.lower < c * s.unit && c * s.unit < s.upper

/-- The nearer of `c` and `c + 1`, the even one at equal distance. -/
def Scaled.nearer (s : Scaled) (c : Nat) : Nat :=
  let middle := (2 * c + 1) * s.unit
  if 2 * s.value < middle then c
  else if middle < 2 * s.value then c + 1
  else if c % 2 == 0 then c else c + 1

/-- A grid point in the interval, if there is one. -/
def Scaled.gridPoint? (s : Scaled) : Option Nat :=
  let c := s.value / s.unit
  match s.contains c, s.contains (c + 1) with
  | true, true => some (s.nearer c)
  | true, false => some c
  | false, true => some (c + 1)
  | false, false => none

/-- The decimal exponent of the leading digit of `numerator / denominator`. -/
def leadingExponent (numerator denominator : Nat) : Int :=
  if denominator ≤ numerator then (Nat.toDigits 10 (numerator / denominator)).length - 1
  else
    let j := (Nat.toDigits 10 (denominator / numerator)).length - 1
    if denominator ≤ numerator * Nat.pow 10 j then -j else -(j + 1)

/-- Try grids with `count`, `count + 1`, … digits, at most `fuel` of them. -/
def search (s : Scaled) (leading : Int) : (fuel count : Nat) → Decimal
  | 0, count =>
    let k := leading - (count - 1)
    let t := s.inUnits k
    ⟨t.nearer (t.value / t.unit), k⟩
  | fuel + 1, count =>
    let k := leading - (count - 1)
    match (s.inUnits k).gridPoint? with
    | some c => ⟨c, k⟩
    | none => search s leading fuel (count + 1)

/-- Drop trailing zeros, at most `fuel` of them. -/
def Decimal.trim (d : Decimal) : (fuel : Nat) → Decimal
  | 0 => d
  | fuel + 1 =>
    if d.digits ≠ 0 ∧ d.digits % 10 = 0 then Decimal.trim ⟨d.digits / 10, d.exponent + 1⟩ fuel
    else d

/-- The shortest decimal that rounds to `m · 2 ^ q`, without trailing zeros; seventeen digits are
always enough for a double. -/
def shortest (m : Nat) (q : Int) (closeBelow : Bool) : Decimal :=
  let s := Scaled.ofBinary m q closeBelow
  (search s (leadingExponent s.value s.unit) 17 1).trim 17

end StateWalk.Shortest
