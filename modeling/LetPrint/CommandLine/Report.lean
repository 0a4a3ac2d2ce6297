import LetPrint.Fault

set_option autoImplicit false

namespace LetPrint.CommandLine

def column (n : Nat) : String := "".pushn ' ' (4 - (toString n).length) ++ toString n

def tokenLine (index : Nat) (t : Token) : String := column index ++ ": " ++ t.display

def tokenLines (index : Nat) : List Token → List String
  | [] => []
  | t :: ts => tokenLine index t :: tokenLines (index+1) ts

def ofLines (lines : List String) : String := String.join (lines.map fun line => line ++ "\n")

def tokenList (ts : List Token) : String := ofLines (tokenLines 0 ts)

def offending (ts : List Token) : String := " ".intercalate (ts.map Token.text)

def report (file : String) (e : SyntaxError) : List String :=
  [match e.tip? with
    | none => "Error: " ++ e.name
    | some tip => "Error: " ++ e.name ++ " (" ++ tip ++ ")",
   "-> " ++ file,
   "   |",
   "   | " ++ (if (offending e.tokens).isEmpty then e.message else offending e.tokens)]

end LetPrint.CommandLine
