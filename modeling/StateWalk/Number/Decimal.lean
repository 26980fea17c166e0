import StateWalk.Number.Binary64
import StateWalk.Text.Blank
import StateWalk.Text.DecimalDigit

/-!
# Decimal text of a double

`Binary64.ofDecimal?` is the double nearest to a decimal text. The text may have a sign, a fraction
and an exponent, or be the text of an infinity or of what is not a number; blanks around it do not
count. Single underscores may stand between digits. Digits and blanks may be those of any script.
-/

namespace StateWalk.Binary64

/-- A character of a decimal text in its plain form: a digit or a letter of ASCII. -/
def plainForm (c : Char) : Char :=
  match Text.digit? c with
  | some n => Char.ofNat ('0'.toNat + n)
  | none => c.toLower

def trim (cs : List Char) : List Char :=
  ((cs.dropWhile Text.isBlank).reverse.dropWhile Text.isBlank).reverse

/-- Digits, with single underscores between them. -/
def isNumeral (cs : List Char) : Bool :=
  ((String.ofList cs).splitOn "_").all fun run => !run.isEmpty && run.all Char.isDigit

/-- The number that the digits of a text make. -/
def digitsValue (cs : List Char) : Nat :=
  cs.foldl (fun n c => if c.isDigit then 10 * n + (c.toNat - '0'.toNat) else n) 0

/-- What stands before the first `c` and what stands behind it; the second part is missing without
one. -/
def cut (c : Char) (cs : List Char) : List Char × Option (List Char) :=
  match cs.dropWhile (· != c) with
  | [] => (cs, none)
  | _ :: rest => (cs.takeWhile (· != c), some rest)

/-- A signed numeral. -/
def exponent? : List Char → Option Int
  | '-' :: cs => if isNumeral cs then some (-(digitsValue cs : Int)) else none
  | '+' :: cs | cs => if isNumeral cs then some (digitsValue cs) else none

/-- The bits of a decimal without a sign, in plain form. -/
def bitsOfDecimal? (cs : List Char) : Option UInt64 := do
  if cs = "nan".toList then return 0x7ff8000000000000
  if cs = "inf".toList ∨ cs = "infinity".toList then return 0x7ff0000000000000
  let (mantissa, exponentText) := cut 'e' cs
  let (whole, fractionText) := cut '.' mantissa
  let decimals := fractionText.getD []
  let isPart (part : List Char) : Bool := part.isEmpty || isNumeral part
  if isPart whole && isPart decimals && !(whole.isEmpty && decimals.isEmpty) then
    let exponent ← exponentText.elim (some 0) exponent?
    let e := exponent - (decimals.filter Char.isDigit).length
    return (Float.ofScientific (digitsValue (whole ++ decimals)) (decide (e < 0)) e.natAbs).toBits
  else none

def ofDecimal? (s : String) : Option Binary64 := do
  match (trim s.toList).map plainForm with
  | '-' :: cs => return ⟨(← bitsOfDecimal? cs) ||| 0x8000000000000000⟩
  | '+' :: cs | cs => return ⟨← bitsOfDecimal? cs⟩

end StateWalk.Binary64
