import LetPrint.Token

/-!
What can be wrong with a text, and the error that reports it: a fault together with the tokens it
was found on. Each fault has a name, a message and, apart from an unrecognised character, a tip.
-/

set_option autoImplicit false

namespace LetPrint

/-- Why a token range is no statement. A caller may also give a reason of its own. -/
inductive StatementFault where
  | noStatements
  | empty
  | unknownKeyword (found : String)
  | missingName
  | missingValue
  | reason (text : String)
  deriving DecidableEq, Repr

def StatementFault.message : StatementFault → String
  | noStatements => "expected at least one statement"
  | empty => "found an empty statement"
  | unknownKeyword found => "expected `let` or `print`, found `" ++ found ++ "`"
  | missingName => "expected identifier after `let`"
  | missingValue => "expected `=` followed by a value"
  | reason text => text

inductive ExpressionFault where
  | missingOperand
  | formless
  | noTopLevelOperator
  | notAnOperator
  | notAnOperand
  | reason (text : String)
  deriving DecidableEq, Repr

def ExpressionFault.message : ExpressionFault → String
  | missingOperand => "expected an operand, found nothing"
  | formless => "expected a number, identifier, parenthesized group or arithmetic operation"
  | noTopLevelOperator => "no arithmetic operator at top level"
  | notAnOperator => "expected an arithmetic operator"
  | notAnOperand => "expected a number or identifier"
  | reason text => text

inductive Fault where
  | unrecognised (text : String)
  | statement (fault : StatementFault)
  | expression (fault : ExpressionFault)
  | number (text : String)
  | nesting (limit : Nat)
  deriving DecidableEq, Repr

namespace Fault

def name : Fault → String
  | unrecognised _ => "UnrecognisedToken"
  | statement _ => "InvalidStatement"
  | expression _ => "InvalidExpression"
  | number _ => "NumberParseError"
  | nesting _ => "NestingTooDeep"

def message : Fault → String
  | unrecognised text => "unrecognised token: " ++ Text.quote text
  | statement fault => "invalid statement: " ++ fault.message
  | expression fault => "invalid expression: " ++ fault.message
  | number text => "error parsing number: " ++ Text.quote text
  | nesting limit => "expression nesting deeper than " ++ toString limit

def tip? : Fault → Option String
  | unrecognised _ => none
  | statement fault => some ("Invalid statement, " ++ fault.message)
  | expression fault => some ("Invalid expression, " ++ fault.message)
  | number text => some ("Invalid number: `" ++ text ++ "`")
  | nesting limit => some ("Expression nesting exceeds the limit of " ++ toString limit)

def field : Fault → String × String
  | unrecognised text => ("token", Text.quote text)
  | statement fault => ("message", Text.quote fault.message)
  | expression fault => ("message", Text.quote fault.message)
  | number text => ("token", Text.quote text)
  | nesting limit => ("limit", toString limit)

def dump (f : Fault) (layout : Text.Layout) (level : Nat) : String :=
  layout.record level f.name [f.field]

end Fault

/-- A fault and the tokens it was found on, none for a fault in the characters. -/
structure SyntaxError where
  fault : Fault
  tokens : List Token
  deriving DecidableEq, Repr

namespace SyntaxError

def name (e : SyntaxError) : String := e.fault.name

def message (e : SyntaxError) : String := e.fault.message

def tip? (e : SyntaxError) : Option String := e.fault.tip?

def dump (e : SyntaxError) (layout : Text.Layout) (level : Nat) : String :=
  layout.record level "Error"
    [("internal_error", e.fault.dump layout (level+1)),
     ("tokens", layout.list (level+1) (e.tokens.map fun t => t.dump layout (level+2)))]

end SyntaxError

end LetPrint
