import LetPrint.Binary64.Rounding

set_option autoImplicit false

namespace LetPrint

def digitValue (c : Char) : Nat := c.toNat - '0'.toNat

def digitsValue (cs : List Char) : Nat := cs.foldl (fun n c => 10*n + digitValue c) 0

theorem digitsValue_append_singleton (cs : List Char) (c : Char) :
    digitsValue (cs ++ [c]) = 10*digitsValue cs + digitValue c := by
  simp [digitsValue,List.foldl_append]

def readSign : List Char → Bool × List Char
  | '-' :: cs => (true,cs)
  | '+' :: cs => (false,cs)
  | cs => (false,cs)

def readFraction : List Char → List Char × List Char
  | '.' :: cs => (cs.takeWhile Char.isDigit,cs.dropWhile Char.isDigit)
  | cs => ([],cs)

def readExponent? : List Char → Option Int
  | [] => some 0
  | c :: cs =>
    let (negative,digits) := readSign cs
    if (c = 'e' ∨ c = 'E') ∧ digits ≠ [] ∧ digits.all Char.isDigit then
      some (if negative then -digitsValue digits else digitsValue digits)
    else none

/-- Digits on at least one side of an optional point, then an optional exponent. -/
def Decimal.read? (cs : List Char) : Option Decimal :=
  let whole := cs.takeWhile Char.isDigit
  let (fraction,rest) := readFraction (cs.dropWhile Char.isDigit)
  if whole = [] ∧ fraction = [] then none
  else (readExponent? rest).map fun e =>
    ⟨digitsValue (whole ++ fraction), e - fraction.length⟩

namespace Binary64

/-- The names of the special values are read in either case. -/
def readSpecial? (negative : Bool) (cs : List Char) : Option Binary64 :=
  let name := String.ofList (cs.map Char.toLower)
  if name = "inf" ∨ name = "infinity" then some (infinity negative)
  else if name = "nan" then some (nan negative)
  else none

def readChars? (cs : List Char) : Option Binary64 :=
  let (negative,rest) := readSign cs
  readSpecial? negative rest <|> (Decimal.read? rest).map (ofDecimal negative)

def read? (text : String) : Option Binary64 := readChars? text.toList

end Binary64

end LetPrint
