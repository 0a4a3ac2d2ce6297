import LetPrint.Operator

set_option autoImplicit false

namespace LetPrint

inductive EventLevel where
  | debug
  | trace
  deriving DecidableEq, Repr

def EventLevel.name : EventLevel → String
  | debug => "DEBUG"
  | trace => "TRACE"

inductive Event where
  | lexed (token : Token)
  | tokenized (tokens : Nat)
  | chunked (delimiter : TokenKind) (chunks : Nat)
  /-- A top-level operator was found after `index` tokens of the range searched. -/
  | operatorFound (operator : TokenKind) (index : Nat)
  | chained (tier : Tier) (operators depth : Nat)
  | unwrapped (depth : Nat)
  | parsed (tokens statements : Nat)
  | tokensReady
  | programReady
  deriving DecidableEq, Repr

namespace Event

def level : Event → EventLevel
  | tokenized _ | parsed _ _ | tokensReady | programReady => .debug
  | lexed _ | chunked _ _ | operatorFound _ _ | chained _ _ _ | unwrapped _ => .trace

def text : Event → String
  | lexed token => "lexed token kind=" ++ token.kind.name ++ " value=" ++ token.text
  | tokenized tokens => "tokenized source tokens=" ++ toString tokens
  | chunked delimiter chunks =>
    "split tokens delimiter=" ++ delimiter.name ++ " chunks=" ++ toString chunks
  | operatorFound operator index =>
    "found top-level operator operator=" ++ operator.name ++ " index=" ++ toString index
  | chained tier operators depth =>
    "binary split binding_power=" ++ tier.name ++ " operators=" ++ toString operators ++
      " depth=" ++ toString depth
  | unwrapped depth => "stripping outer parentheses depth=" ++ toString depth
  | parsed tokens statements =>
    "parsed program tokens=" ++ toString tokens ++ " statements=" ++ toString statements
  | tokensReady => "tokenized"
  | programReady => "parsed"

def line (e : Event) : String := e.level.name ++ " " ++ e.text

end Event

end LetPrint
