import LetPrint.Token

set_option autoImplicit false

namespace LetPrint

inductive BinaryOperator where
  | add
  | subtract
  | multiply
  | divide
  deriving DecidableEq, Repr

namespace BinaryOperator

def name : BinaryOperator → String
  | add => "Add"
  | subtract => "Subtract"
  | multiply => "Multiply"
  | divide => "Divide"

def symbol : BinaryOperator → String
  | add => "+"
  | subtract => "-"
  | multiply => "*"
  | divide => "/"

def kind : BinaryOperator → TokenKind
  | add => .plus
  | subtract => .minus
  | multiply => .mul
  | divide => .div

def ofKind? : TokenKind → Option BinaryOperator
  | .plus => some add
  | .minus => some subtract
  | .mul => some multiply
  | .div => some divide
  | _ => none

@[simp] theorem ofKind?_kind (op : BinaryOperator) : ofKind? op.kind = some op := by
  cases op <;> rfl

theorem ofKind?_eq_some_iff {k : TokenKind} {op : BinaryOperator} :
    ofKind? k = some op ↔ k = op.kind := by cases k <;> cases op <;> decide

theorem isSome_ofKind? (k : TokenKind) : (ofKind? k).isSome = k.isArithmetic := by
  cases k <;> rfl

end BinaryOperator

inductive Tier where
  | additive
  | multiplicative
  deriving DecidableEq, Repr

namespace Tier

def all : List Tier := [additive, multiplicative]

def name : Tier → String
  | additive => "Additive"
  | multiplicative => "Multiplicative"

def operators : Tier → List TokenKind
  | additive => [.plus, .minus]
  | multiplicative => [.mul, .div]

def rank : Tier → Nat
  | additive => 0
  | multiplicative => 1

instance : LT Tier := ⟨fun s t => s.rank < t.rank⟩

instance (s t : Tier) : Decidable (s < t) := inferInstanceAs (Decidable (s.rank < t.rank))

def holding (k : TokenKind) : List Tier := all.filter fun t => t.operators.contains k

end Tier

def BinaryOperator.tier : BinaryOperator → Tier
  | add | subtract => .additive
  | multiply | divide => .multiplicative

theorem BinaryOperator.mem_operators_iff {op : BinaryOperator} {t : Tier} :
    op.kind ∈ t.operators ↔ op.tier = t := by cases op <;> cases t <;> decide

end LetPrint
