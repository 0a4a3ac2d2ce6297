import LetPrint.Text.Printable

set_option autoImplicit false

namespace LetPrint.Text

def codePointEscape (c : Char) : List Char :=
  ['\\','u','{'] ++ Nat.toDigits 16 c.toNat ++ ['}']

def escape (c : Char) : List Char :=
  if c = '\x00' then ['\\','0']
  else if c = '\t' then ['\\','t']
  else if c = '\n' then ['\\','n']
  else if c = '\r' then ['\\','r']
  else if c = '"' then ['\\','"']
  else if c = '\\' then ['\\','\\']
  else if isPrintable c then [c]
  else codePointEscape c

def quoted (cs : List Char) : List Char := '"' :: cs.flatMap escape ++ ['"']

def quote (s : String) : String := String.ofList (quoted s.toList)

@[simp] theorem toList_quote (s : String) : (quote s).toList = quoted s.toList := by simp [quote]

end LetPrint.Text
