import LetPrint.Text.Layout
import LetPrint.Text.Quoted

/-!
Tokens: what the grammar is stated over. A token has a kind and its text; only numbers and
identifiers carry information in the text.
-/

set_option autoImplicit false

namespace LetPrint

inductive TokenKind where
  | number
  | ident
  | plus
  | minus
  | mul
  | div
  | equal
  | semicolon
  | lparen
  | rparen
  | letKeyword
  | printKeyword
  deriving DecidableEq, Repr

namespace TokenKind

def all : List TokenKind :=
  [number, ident, plus, minus, mul, div, equal, semicolon, lparen, rparen, letKeyword, printKeyword]

def name : TokenKind → String
  | number => "Number"
  | ident => "Ident"
  | plus => "Plus"
  | minus => "Minus"
  | mul => "Mul"
  | div => "Div"
  | equal => "Equal"
  | semicolon => "Semicolon"
  | lparen => "LParen"
  | rparen => "RParen"
  | letKeyword => "Let"
  | printKeyword => "Print"

theorem name_injective {k l : TokenKind} (h : k.name = l.name) : k = l := by
  cases k <;> cases l <;> simp_all [name]

def isLiteral : TokenKind → Bool
  | number | ident => true
  | _ => false

def isArithmetic : TokenKind → Bool
  | plus | minus | mul | div => true
  | _ => false

def isParenthesis : TokenKind → Bool
  | lparen | rparen => true
  | _ => false

def opensStatement : TokenKind → Bool
  | letKeyword | printKeyword => true
  | _ => false

def nesting : TokenKind → Int
  | lparen => 1
  | rparen => -1
  | _ => 0

def ofReserved? (word : String) : Option TokenKind :=
  if word = "let" then some letKeyword
  else if word = "print" then some printKeyword
  else none

def ofWord (word : String) : TokenKind := (ofReserved? word).getD ident

def ofMark? : Char → Option TokenKind
  | '(' => some lparen
  | ')' => some rparen
  | '=' => some equal
  | ';' => some semicolon
  | '+' => some plus
  | '-' => some minus
  | '*' => some mul
  | '/' => some div
  | _ => none

end TokenKind

structure Token where
  kind : TokenKind
  text : String
  deriving DecidableEq, Repr

namespace Token

def isLiteral (t : Token) : Bool := t.kind.isLiteral

/-- The kind, with the text of a literal in parentheses. -/
def display (t : Token) : String :=
  t.kind.name ++ " (" ++ (if t.isLiteral then t.text else "") ++ ")"

def dump (t : Token) (layout : Text.Layout) (level : Nat) : String :=
  layout.record level "Token" [("kind", t.kind.name), ("value", Text.quote t.text)]

end Token

end LetPrint
