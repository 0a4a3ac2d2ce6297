import LetPrint.Expr

set_option autoImplicit false

namespace LetPrint

inductive Stmt where
  | define (name : String) (value : Expr)
  | print (value : Expr)
  deriving DecidableEq, Repr

namespace Stmt

def nodeName : Stmt → String
  | define _ _ => "LetStatement"
  | print _ => "PrintStatement"

def value : Stmt → Expr
  | define _ value => value
  | print value => value

def equals : Stmt → Stmt → Bool
  | define a x, define b y => a == b && x.equals y
  | print x, print y => x.equals y
  | _, _ => false

def dump (layout : Text.Layout) (level : Nat) : Stmt → String
  | define name value =>
    layout.tagged level "Let" (layout.record (level+1) "LetStmt"
      [("name", dumpName name layout (level+2)), ("value", value.dump layout (level+2))])
  | print value =>
    layout.tagged level "Print" (layout.record (level+1) "PrintStmt"
      [("value", value.dump layout (level+2))])

end Stmt

structure Program where
  body : List Stmt
  deriving DecidableEq, Repr

namespace Program

def nodeName (_ : Program) : String := "Program"

def empty : Program := ⟨[]⟩

def size (p : Program) : Nat := p.body.length

def isEmpty (p : Program) : Bool := p.body.isEmpty

def equals (p q : Program) : Bool :=
  p.size == q.size && (p.body.zip q.body).all fun s => s.1.equals s.2

def dump (p : Program) (layout : Text.Layout) : String :=
  layout.record 0 "Program" [("body", layout.list 1 (p.body.map fun s => s.dump layout 2))]

def inline (p : Program) : String := p.dump .inline

def indented (p : Program) : String := p.dump .indented

end Program

end LetPrint
