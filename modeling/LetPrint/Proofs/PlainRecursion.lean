import LetPrint.Proofs.Peeling

set_option autoImplicit false

namespace LetPrint

def plainExprAt (depth : Nat) (ts : List Token) : Except SyntaxError Expr :=
  if nestingLimit < depth then .error ⟨.nesting nestingLimit,ts⟩
  else match h : Form.ofRange ts with
    | .literal t => parsePrimary t
    | .group inner =>
      have := Form.length_lt_of_ofRange h
      plainExprAt (depth+1) inner
    | .operation =>
      match hs : Split.outermost? ts with
      | none => .error ⟨.expression .noTopLevelOperator,ts⟩
      | some s =>
        have := Split.length_of_outermost? hs
        match BinaryOperator.ofKind? s.operator.kind with
        | none => .error ⟨.expression .notAnOperator,ts⟩
        | some op => do
          let left ← plainExprAt depth s.left
          let right ← plainExprAt depth s.right
          return .binary op left right
    | .missing => .error ⟨.expression .missingOperand,ts⟩
    | .formless => .error ⟨.expression .formless,ts⟩
termination_by ts.length

/-- Chains and plain recursion read every range alike, at every depth, well formed or not. -/
theorem parseExprAt_eq_plainExprAt (depth : Nat) (ts : List Token) :
    (parseExprAt depth ts).result = plainExprAt depth ts := by
  fun_induction plainExprAt depth ts with
  | case1 depth ts hd => exact result_parseExprAt_of_deep hd
  | case2 depth ts hd t hf => rw [result_parseExprAt (Nat.not_lt.1 hd),hf]
  | case3 depth ts hd inner hf _ ih => rw [result_parseExprAt (Nat.not_lt.1 hd),hf]; exact ih
  | case4 depth ts hd hf hs =>
    rw [result_parseExprAt (Nat.not_lt.1 hd),hf]
    exact result_parseChainAt_of_none hs
  | case5 depth ts hd hf s hs _ hop =>
    obtain ⟨op,hop',-⟩ := Split.exists_operator_of_outermost? hs
    rw [hop'] at hop
    cases hop
  | case6 depth ts hd hf s hs _ op hop ihl ihr =>
    rw [result_parseExprAt (Nat.not_lt.1 hd),hf]
    rw [result_parseChainAt_of_some (Nat.not_lt.1 hd) hs hop,ihl,ihr]
  | case7 depth ts hd hf => rw [result_parseExprAt (Nat.not_lt.1 hd),hf]
  | case8 depth ts hd hf => rw [result_parseExprAt (Nat.not_lt.1 hd),hf]

end LetPrint
