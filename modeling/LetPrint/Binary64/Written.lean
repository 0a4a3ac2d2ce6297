import LetPrint.Binary64.Shortest

set_option autoImplicit false

namespace LetPrint

structure PositionalRange where
  low : Int
  high : Int

namespace Binary64

/-- A ten-thousandth is the least number written positionally, and 10^16 is the first too large. -/
def positional : PositionalRange := ⟨-4,15⟩

def zeros (n : Nat) : List Char := List.replicate n '0'

/-- Digits and a point after the first `point` of them, zeros filling what is missing. -/
def pointed (digits : List Char) (point : Int) : List Char :=
  if point ≤ 0 then ['0','.'] ++ zeros (-point).toNat ++ digits
  else if digits.length ≤ point.toNat then
    digits ++ zeros (point.toNat - digits.length) ++ ['.','0']
  else digits.take point.toNat ++ '.' :: digits.drop point.toNat

def scientific (digits : List Char) (exponent : Int) : List Char :=
  digits.take 1 ++ (if digits.length ≤ 1 then [] else '.' :: digits.drop 1) ++
    'e' :: (toString exponent).toList

def writeDecimal (d : Decimal) : List Char :=
  let digits := Nat.toDigits 10 d.digits
  let first : Int := d.exponent + digits.length - 1
  if positional.low ≤ first ∧ first ≤ positional.high then pointed digits (first+1)
  else scientific digits first

def writeMagnitude (magnitude : Nat) : List Char :=
  if magnitude = 0 then ['0','.','0']
  else if magnitude < infinityMagnitude then writeDecimal (shortest magnitude)
  else ['i','n','f']

/-- A sign is written for every negative value, zero included, but not for a NaN. -/
def writeChars (x : Binary64) : List Char :=
  if x.isNaN then ['N','a','N']
  else (if x.negative then ['-'] else []) ++ writeMagnitude x.magnitude

def write (x : Binary64) : String := String.ofList x.writeChars

end Binary64

end LetPrint
