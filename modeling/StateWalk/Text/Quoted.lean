import StateWalk.Text.Hex
import StateWalk.Text.Printable

/-!
# Quoted text in messages

Messages show a text between single quotes, or between double quotes if it holds a single quote
and no double one. The quote, the backslash and every character that is not printable are escaped.
Byte strings follow the same rule, with a leading `b` and every byte outside ASCII escaped.
-/

namespace StateWalk.Text

/-- The quotation mark of a text with these characters. -/
def quotationMark (cs : List Char) : Char :=
  if cs.contains '\'' && !cs.contains '"' then '"' else '\''

/-- A character between quotes `mark`. -/
def quotedChar (mark c : Char) : List Char :=
  if c = mark ∨ c = '\\' then ['\\', c]
  else if c = '\n' then ['\\', 'n']
  else if c = '\r' then ['\\', 'r']
  else if c = '\t' then ['\\', 't']
  else if isPrintable c then [c]
  else if c.toNat < 0x100 then '\\' :: 'x' :: hexDigits 2 c.toNat
  else if c.toNat < 0x10000 then '\\' :: 'u' :: hexDigits 4 c.toNat
  else '\\' :: 'U' :: hexDigits 8 c.toNat

def quoted (s : String) : List Char :=
  let mark := quotationMark s.toList
  mark :: (s.toList.flatMap (quotedChar mark) ++ [mark])

/-- A byte between quotes `mark`. -/
def quotedByte (mark : Char) (b : UInt8) : List Char :=
  if b.toNat < 0x80 then quotedChar mark (Char.ofNat b.toNat)
  else '\\' :: 'x' :: hexDigits 2 b.toNat

def quotedBytes (bs : List UInt8) : List Char :=
  let mark := quotationMark (bs.map fun b => Char.ofNat b.toNat)
  'b' :: mark :: (bs.flatMap (quotedByte mark) ++ [mark])

end StateWalk.Text
