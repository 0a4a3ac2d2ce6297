import LetPrint.Binary64.Written
import LetPrint.Operator

set_option autoImplicit false

namespace LetPrint

inductive Expr where
  | number (value : Binary64)
  | identifier (name : String)
  | binary (operator : BinaryOperator) (left right : Expr)
  deriving DecidableEq, Repr

def dumpName (name : String) (layout : Text.Layout) (level : Nat) : String :=
  layout.record level "IdentifierExpr" [("name", Text.quote name)]

namespace Expr

def nodeName : Expr → String
  | number _ => "NumberLiteral"
  | identifier _ => "Identifier"
  | binary _ _ _ => "BinaryExpression"

def equals : Expr → Expr → Bool
  | number x, number y => x.equals y
  | identifier a, identifier b => a == b
  | binary op l r, binary op' l' r' => op == op' && l.equals l' && r.equals r'
  | _, _ => false

def dump (layout : Text.Layout) : Nat → Expr → String
  | level, number x =>
    layout.tagged level "Number" (layout.record (level+1) "NumberExpr" [("value", x.write)])
  | level, identifier name => layout.tagged level "Identifier" (dumpName name layout (level+1))
  | level, binary op l r =>
    layout.tagged level "Binary" (layout.record (level+1) "BinaryExpr"
      [("operator", op.name), ("left", l.dump layout (level+2)),
       ("right", r.dump layout (level+2))])

end Expr

end LetPrint
