import LetPrint.Proofs.Peeling

set_option autoImplicit false

namespace LetPrint

/-- An arithmetic operator of the range has as many opening as closing parentheses to its right. -/
def HasOperator (ts : List Token) : Prop :=
  ∃ left t right, ts = left ++ t :: right ∧ t.kind.isArithmetic = true ∧ balance right = 0

variable {ts : List Token} {depth : Nat}

theorem Tier.exists_of_isArithmetic {k : TokenKind} (h : k.isArithmetic = true) :
    ∃ tier : Tier, k ∈ tier.operators ∧ k.isParenthesis = false := by
  rw [← BinaryOperator.isSome_ofKind?,Option.isSome_iff_exists] at h
  obtain ⟨op,hop⟩ := h
  obtain rfl := BinaryOperator.ofKind?_eq_some_iff.1 hop
  exact ⟨op.tier,BinaryOperator.mem_operators_iff.2 rfl,by cases op <;> rfl⟩

theorem hasOperator_iff : HasOperator ts ↔ ∃ tier : Tier, HasTopLevel tier.operators ts := by
  refine ⟨?_,?_⟩
  · rintro ⟨left,t,right,rfl,ht,hb⟩
    obtain ⟨tier,hm,hp⟩ := Tier.exists_of_isArithmetic ht
    exact ⟨tier,⟨left,t,right⟩,rfl,⟨hm,hp,hb⟩⟩
  · rintro ⟨tier,s,rfl,hs⟩
    exact ⟨s.left,s.operator,s.right,rfl,Tier.isArithmetic_of_mem hs.kind_mem,hs.balance_right⟩

theorem not_hasOperator_iff : ¬ HasOperator ts ↔ Split.outermost? ts = none := by
  rw [hasOperator_iff,not_exists,Split.outermost?_eq_none_iff]

theorem isSome_outermost?_iff : (Split.outermost? ts).isSome = true ↔ HasOperator ts := by
  rw [← not_iff_not,not_hasOperator_iff,Bool.not_eq_true,Option.isSome_eq_false_iff,
    Option.isNone_iff_eq_none]

theorem not_hasOperator_of_isGroup (h : isGroup ts = true) : ¬ HasOperator ts := by
  rw [hasOperator_iff]
  rintro ⟨tier,ht⟩
  exact not_hasTopLevel_of_isGroup h ht

theorem HasOperator.form (h : HasOperator ts) : Form.ofRange ts = .operation := by
  obtain ⟨tier,ht⟩ := hasOperator_iff.1 h
  exact Form.ofRange_of_hasTopLevel ht

/-- The form of a range that is asked for its operators before its parentheses. -/
def Form.operatorFirst (ts : List Token) : Form :=
  match loneLiteral? ts with
  | some t => literal t
  | none =>
    if (Split.outermost? ts).isSome then operation
    else if isGroup ts then group (interior ts)
    else if ts.any fun t => t.kind.isArithmetic then operation
    else if ts.isEmpty then missing
    else formless

theorem Form.operatorFirst_eq_ofRange (ts : List Token) : operatorFirst ts = ofRange ts := by
  cases hl : loneLiteral? ts with
  | some t => simp only [operatorFirst,ofRange,hl]
  | none =>
    by_cases h : HasOperator ts
    · have hs := isSome_outermost?_iff.2 h
      simp [h.form,operatorFirst,hl,hs]
    · have hs := mt isSome_outermost?_iff.1 h
      simp [operatorFirst,ofRange,hl,hs]

theorem HasOperator.parseExprAt_eq (h : HasOperator ts) (hd : depth ≤ nestingLimit) :
    parseExprAt depth ts = parseChainAt depth ts := by
  rw [parseExprAt_by_form hd,h.form]

theorem parseChainAt_of_not_hasOperator (h : ¬ HasOperator ts) :
    parseChainAt depth ts = Traced.fail (.expression .noTopLevelOperator) ts := by
  rw [parseChainAt_by_chain,Chain.ofRange_of_none (not_hasOperator_iff.1 h)]

/-- With an operator at top level a range is read alike as a chain and as an expression; without
one it is no chain, and that is reported on all of it. The first is never so for a group, so the
two questions may be asked in either order. -/
theorem parseBinary_eq_parseExpr_or_fail (ts : List Token) :
    (HasOperator ts → parseBinary ts = parseExpr ts) ∧
    (¬ HasOperator ts → parseBinary ts = Traced.fail (.expression .noTopLevelOperator) ts) ∧
    (isGroup ts = true → ¬ HasOperator ts) ∧ Form.operatorFirst ts = Form.ofRange ts :=
  ⟨fun h => (h.parseExprAt_eq (Nat.zero_le _)).symm,parseChainAt_of_not_hasOperator,
    not_hasOperator_of_isGroup,Form.operatorFirst_eq_ofRange ts⟩

/-- The operator of a sum in parentheses is not at top level, so the sum is no chain. -/
theorem parseBinary_eq_parseExpr_or_fail_group :
    parseBinary [⟨.lparen,"("⟩,⟨.ident,"a"⟩,⟨.plus,"+"⟩,⟨.ident,"b"⟩,⟨.rparen,")"⟩] =
      Traced.fail (.expression .noTopLevelOperator)
        [⟨.lparen,"("⟩,⟨.ident,"a"⟩,⟨.plus,"+"⟩,⟨.ident,"b"⟩,⟨.rparen,")"⟩] := by
  obtain ⟨-,hfail,hgroup,-⟩ := parseBinary_eq_parseExpr_or_fail
    [⟨.lparen,"("⟩,⟨.ident,"a"⟩,⟨.plus,"+"⟩,⟨.ident,"b"⟩,⟨.rparen,")"⟩]
  exact hfail (hgroup (by decide))

end LetPrint
