import LetPrint.Proofs.Acceptance
import LetPrint.Proofs.Partners
import LetPrint.Proofs.PlainRecursion

set_option autoImplicit false

namespace LetPrint

/-- The reading ended at the limit, with more groups around the range than are read. -/
def EndsTooDeep (result : Except SyntaxError Expr) : Prop :=
  ∃ range, result = .error ⟨.nesting nestingLimit,range⟩

variable {ts : List Token} {depth less : Nat}

theorem EndsTooDeep.bind {result : Except SyntaxError Expr} (h : EndsTooDeep result)
    (f : Expr → Except SyntaxError Expr) : EndsTooDeep (result >>= f) := by
  obtain ⟨range,rfl⟩ := h
  exact ⟨range,rfl⟩

/-- With less depth the first error on the way is the same, if it is not the one at the limit. -/
theorem result_parseExprAt_of_less (h : less ≤ depth) (hn : ¬ EndsTooDeep (plainExprAt depth ts)) :
    (parseExprAt less ts).result = plainExprAt depth ts := by
  fun_induction plainExprAt depth ts generalizing less with
  | case1 depth ts hd => exact absurd ⟨ts,rfl⟩ hn
  | case2 depth ts hd t hf => rw [result_parseExprAt (by omega),hf]
  | case3 depth ts hd inner hf _ ih =>
    rw [result_parseExprAt (by omega),hf]
    exact ih (Nat.succ_le_succ h) hn
  | case4 depth ts hd hf hs =>
    rw [result_parseExprAt (by omega),hf]
    exact result_parseChainAt_of_none hs
  | case5 depth ts hd hf s hs _ hop =>
    obtain ⟨op,hop',-⟩ := Split.exists_operator_of_outermost? hs
    rw [hop'] at hop
    cases hop
  | case6 depth ts hd hf s hs _ op hop ihl ihr =>
    rw [result_parseExprAt (by omega),hf]
    rw [result_parseChainAt_of_some (by omega) hs hop,ihl h fun hl => hn (hl.bind _)]
    -- the right side is read only if the left side has a tree
    cases hl : plainExprAt depth s.left with
    | error e => rfl
    | ok l =>
      rw [hl] at hn
      rw [ihr h fun hr => hn (hr.bind _)]
  | case7 depth ts hd hf => rw [result_parseExprAt (by omega),hf]
  | case8 depth ts hd hf => rw [result_parseExprAt (by omega),hf]

theorem result_parseExpr_enclosed {l r : Token} (hl : l.kind = .lparen) (hr : r.kind = .rparen)
    (h : Closed ts) :
    (parseExpr ([l] ++ ts ++ [r])).result = (parseExprAt 1 ts).result := by
  rw [parseExpr,result_parseExprAt (Nat.zero_le _),List.append_assoc,List.singleton_append,
    Form.ofRange_enclosed hl hr h]

/-- A range that is not too deep for a reading at some depth is read alike at every smaller depth,
with the same tree or the same error. Around a nested range a pair of parentheses therefore makes
the reading too deep or makes no difference. -/
theorem parseExprAt_eq_of_not_endsTooDeep (ts : List Token) :
    (∀ less depth, less ≤ depth → ¬ EndsTooDeep (parseExprAt depth ts).result →
      (parseExprAt less ts).result = (parseExprAt depth ts).result) ∧
    ∀ l r : Token, l.kind = .lparen → r.kind = .rparen → Nested ts →
      EndsTooDeep (parseExpr ([l] ++ ts ++ [r])).result ∨
        (parseExpr ([l] ++ ts ++ [r])).result = (parseExpr ts).result := by
  have hless : ∀ less depth, less ≤ depth → ¬ EndsTooDeep (parseExprAt depth ts).result →
      (parseExprAt less ts).result = (parseExprAt depth ts).result := by
    intro less depth h hn
    rw [parseExprAt_eq_plainExprAt depth] at hn ⊢
    exact result_parseExprAt_of_less h hn
  refine ⟨hless,?_⟩
  intro l r hl hr h
  rw [result_parseExpr_enclosed hl hr (nested_iff_closed.1 h)]
  by_cases hn : EndsTooDeep (parseExprAt 1 ts).result
  · exact .inl hn
  · exact .inr (hless 0 1 (by decide) hn).symm

/-- The group holds two names without an operator. That is reported at depth 255, so it is reported
at depth 0 as well, and with one more pair of parentheses around the group. -/
theorem parseExprAt_eq_of_not_endsTooDeep_names :
    (parseExprAt 0 [⟨.lparen,"("⟩,⟨.ident,"a"⟩,⟨.ident,"b"⟩,⟨.rparen,")"⟩]).result =
      .error ⟨.expression .formless,[⟨.ident,"a"⟩,⟨.ident,"b"⟩]⟩ ∧
    (parseExpr ([⟨.lparen,"("⟩] ++ [⟨.lparen,"("⟩,⟨.ident,"a"⟩,⟨.ident,"b"⟩,⟨.rparen,")"⟩] ++
      [⟨.rparen,")"⟩])).result = .error ⟨.expression .formless,[⟨.ident,"a"⟩,⟨.ident,"b"⟩]⟩ := by
  have hdeep : (parseExprAt 255 [⟨.lparen,"("⟩,⟨.ident,"a"⟩,⟨.ident,"b"⟩,⟨.rparen,")"⟩]).result =
      .error ⟨.expression .formless,[⟨.ident,"a"⟩,⟨.ident,"b"⟩]⟩ := by cbv
  have hnested : Nested [⟨.lparen,"("⟩,⟨.ident,"a"⟩,⟨.ident,"b"⟩,⟨.rparen,")"⟩] :=
    nested_iff_closed.2 ⟨rfl,by decide⟩
  obtain ⟨hless,hgroup⟩ := parseExprAt_eq_of_not_endsTooDeep
    [⟨.lparen,"("⟩,⟨.ident,"a"⟩,⟨.ident,"b"⟩,⟨.rparen,")"⟩]
  have hzero := hless 0 255 (by decide) (by simp [hdeep,EndsTooDeep])
  have hone := hless 1 255 (by decide) (by simp [hdeep,EndsTooDeep])
  rw [hdeep] at hzero hone
  refine ⟨hzero,?_⟩
  rcases hgroup ⟨.lparen,"("⟩ ⟨.rparen,")"⟩ rfl rfl hnested with h | h
  · rw [result_parseExpr_enclosed rfl rfl (nested_iff_closed.1 hnested),hone] at h
    simp [EndsTooDeep] at h
  · exact h.trans hzero

end LetPrint
