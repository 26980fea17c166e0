/-!
# Hexadecimal digits

`hexDigits width n` are the lowest `width` hexadecimal digits of `n`, in lower case and with
leading zeros. `bytesOfHex` reads bytes of two digits each.
-/

namespace StateWalk.Text

def hexDigits : (width : Nat) → Nat → List Char
  | 0, _ => []
  | width + 1, n => hexDigits width (n / 16) ++ [Nat.digitChar (n % 16)]

def hexValue (c : Char) : Nat :=
  if c.isDigit then c.toNat - '0'.toNat else c.toLower.toNat - 'a'.toNat + 10

def bytesOfHex : List Char → List UInt8
  | a :: b :: rest => UInt8.ofNat (16 * hexValue a + hexValue b) :: bytesOfHex rest
  | _ => []

end StateWalk.Text
