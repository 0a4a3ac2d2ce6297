import LetPrint.Proofs.Grammar

set_option autoImplicit false

namespace LetPrint

def ReadsFinite (t : Token) : Prop :=
  t.kind = .number → ∃ x, Binary64.read? t.text = some x ∧ x.isFinite = true

theorem parsePrimary_eq_ok_iff {t : Token} {e : Expr} :
    parsePrimary t = .ok e ↔ Denotes t e ∧ ReadsFinite t := by
  refine ⟨?_,?_⟩
  · intro h
    unfold parsePrimary at h
    split at h
    · rename_i hk
      split at h
      · rename_i x hx
        split at h
        · rename_i hf
          cases h
          exact ⟨.number hk hx,fun _ => ⟨x,hx,hf⟩⟩
        · cases h
      · cases h
    · rename_i hk
      cases h
      exact ⟨.identifier hk,fun hn => by rw [hk] at hn; cases hn⟩
    · cases h
  · intro h
    obtain ⟨hd,hf⟩ := h
    cases hd with
    | number hk hx =>
      obtain ⟨y,hy,hf⟩ := hf hk
      obtain rfl := Option.some.inj (hx.symm.trans hy)
      simp [parsePrimary,hk,hx,hf]
    | identifier hk => simp [parsePrimary,hk]

theorem result_parseExprAt_of_outermost {ts : List Token} {s : Split} {op : BinaryOperator}
    {depth : Nat} (h : depth ≤ nestingLimit)
    (hs : Split.outermost? ts = some s) (ht : s.operator.kind = op.kind) :
    (parseExprAt depth ts).result = (do
      let left ← (parseExprAt depth s.left).result
      let right ← (parseExprAt depth s.right).result
      return .binary op left right) := by
  have hop : BinaryOperator.ofKind? s.operator.kind = some op := by
    rw [ht,BinaryOperator.ofKind?_kind]
  rw [result_parseExprAt h,Form.ofRange_of_outermost hs]
  exact result_parseChainAt_of_some h hs hop

theorem binary_eq_ok_iff {ε : Type} {x y : Except ε Expr} {op : BinaryOperator} {e : Expr} :
    (do let left ← x
        let right ← y
        return Expr.binary op left right) = .ok e ↔
      ∃ l r, x = .ok l ∧ y = .ok r ∧ e = .binary op l r := by
  cases x <;> cases y <;> simp [Bind.bind,Except.bind,Pure.pure,Except.pure,eq_comm]

theorem binary_eq_error_iff {ε : Type} {x y : Except ε Expr} {op : BinaryOperator} {e : ε} :
    (do let left ← x
        let right ← y
        return Expr.binary op left right) = .error e ↔
      x = .error e ∨ (∃ l, x = .ok l) ∧ y = .error e := by
  cases x <;> cases y <;> simp [Bind.bind,Except.bind,Pure.pure,Except.pure]

theorem result_eq_ok_iff_of_deep {ts : List Token} {e : Expr} {depth : Nat}
    (h : nestingLimit < depth) :
    (parseExprAt depth ts).result = .ok e ↔ depth + peak ts ≤ nestingLimit := by
  have hp := peak_nonneg ts
  rw [result_parseExprAt_of_deep h]
  simp only [reduceCtorEq,false_iff]; omega

theorem result_eq_ok_iff_of_outermost {ls rs : List Token} {t : Token} {op : BinaryOperator}
    {l r : Expr} {depth : Nat} (hs : Split.outermost? (ls ++ t :: rs) = some ⟨ls,t,rs⟩)
    (ht : t.kind = op.kind) (hb : balance ls = 0)
    (hl : (parseExprAt depth ls).result = .ok l ↔ depth + peak ls ≤ nestingLimit)
    (hr : (parseExprAt depth rs).result = .ok r ↔ depth + peak rs ≤ nestingLimit) :
    (parseExprAt depth (ls ++ t :: rs)).result = .ok (.binary op l r) ↔
      depth + peak (ls ++ t :: rs) ≤ nestingLimit := by
  by_cases hd : nestingLimit < depth
  · exact result_eq_ok_iff_of_deep hd
  · have hp := peak_around rs hb (BinaryOperator.not_isParenthesis ht)
    rw [result_parseExprAt_of_outermost (Nat.not_lt.1 hd) hs ht,binary_eq_ok_iff]
    refine ⟨?_,?_⟩
    · intro h
      obtain ⟨l',r',hl',hr',he⟩ := h
      cases he
      have h1 := hl.1 hl'
      have h2 := hr.1 hr'
      omega
    · intro h
      exact ⟨l,r,hl.2 (by omega),hr.2 (by omega),rfl⟩

theorem Derives.result_eq_ok_iff {level : Level} {ts : List Token} {e : Expr}
    (h : Derives (fun t e => parsePrimary t = .ok e) level ts e)
    (depth : Nat) : (parseExprAt depth ts).result = .ok e ↔ depth + peak ts ≤ nestingLimit := by
  induction h generalizing depth with
  | ofProduct _ ih => exact ih depth
  | ofFactor _ ih => exact ih depth
  | @sum ls _ _ _ _ _ hop ht dl dr hl hr =>
    have hs := Derives.outermost?_sum ls hop ht dr
    exact result_eq_ok_iff_of_outermost hs ht dl.closed.1 (hl depth) (hr depth)
  | product hop ht dl dr hl hr =>
    have hs := Derives.outermost?_product hop ht dl dr
    exact result_eq_ok_iff_of_outermost hs ht dl.closed.1 (hl depth) (hr depth)
  | @literal t e ht hl =>
    by_cases hd : nestingLimit < depth
    · exact result_eq_ok_iff_of_deep hd
    · have hp : peak [t] = 0 := by
        cases hk : t.kind <;>
          simp_all [Token.isLiteral,TokenKind.isLiteral,peak,TokenKind.nesting]
      rw [result_parseExprAt (Nat.not_lt.1 hd),Form.ofRange_singleton ht,hp]
      simp only [hl,true_iff]
      omega
  | @group l r inner e hl hr d ih =>
    by_cases hd : nestingLimit < depth
    · exact result_eq_ok_iff_of_deep hd
    · rw [result_parseExprAt (Nat.not_lt.1 hd),Form.ofRange_enclosed hl hr d.closed]
      simp only [ih (depth+1),peak_enclosed hl hr d.closed.1]
      omega

theorem derives_of_result_eq_ok {ts : List Token} {e : Expr} {depth : Nat} {level : Level}
    (h : (parseExprAt depth ts).result = .ok e) (hc : level.Covers ts) :
    Derives (fun t e => parsePrimary t = .ok e) level ts e := by
  induction hn : ts.length using Nat.strongRecOn generalizing ts e depth level with
  | ind n ih =>
    subst hn
    by_cases hd : nestingLimit < depth
    · rw [result_parseExprAt_of_deep hd] at h
      cases h
    · rw [result_parseExprAt (Nat.not_lt.1 hd)] at h
      cases hf : Form.ofRange ts with
      | missing => simp [hf] at h
      | formless => simp [hf] at h
      | literal t =>
        obtain ⟨rfl,ht⟩ := Form.eq_of_ofRange_literal hf
        simp only [hf] at h
        exact (Derives.literal ht h).ofFactorAt level
      | group inner =>
        obtain ⟨hg,rfl⟩ := Form.isGroup_of_ofRange hf
        obtain ⟨l,r,hts,hlk,hrk,-⟩ := exists_enclosed_of_isGroup hg
        simp only [hf] at h
        have hi := ih _ (length_interior_lt hg) h (Level.covers_sum _) rfl
        rw [hts]
        exact (Derives.group hlk hrk hi).ofFactorAt level
      | operation =>
        simp only [hf] at h
        cases hs : Split.outermost? ts with
        | none => rw [result_parseChainAt_of_none hs] at h; cases h
        | some s =>
          obtain rfl := Split.range_of_outermost? hs
          obtain ⟨op,hop,hk⟩ := Split.exists_operator_of_outermost? hs
          rw [result_parseChainAt_of_some (Nat.not_lt.1 hd) hs hop] at h
          obtain ⟨l,r,hleft,hright,rfl⟩ := binary_eq_ok_iff.1 h
          have hlen := Split.length_of_outermost? hs
          exact .of_outermost hs hk hc (fun _ hl => ih _ (by omega) hleft hl rfl)
            fun _ hr => ih _ (by omega) hright hr rfl

theorem everyLiteral_readsFinite_iff {ts : List Token} :
    EveryLiteral ReadsFinite ts ↔ ∀ t ∈ ts, ReadsFinite t := by
  refine ⟨?_,fun h t ht _ => h t ht⟩
  intro h t ht hk
  exact h t ht (by simp [Token.isLiteral,hk,TokenKind.isLiteral]) hk

theorem derives_readable_iff {level : Level} {ts : List Token} {e : Expr} :
    Derives (fun t e => parsePrimary t = .ok e) level ts e ↔
      Derives Denotes level ts e ∧ ∀ t ∈ ts, ReadsFinite t := by
  simp only [parsePrimary_eq_ok_iff,Derives.and_iff,everyLiteral_readsFinite_iff]

theorem result_parseExprAt_eq_ok_iff {depth : Nat} {ts : List Token} {e : Expr} :
    (parseExprAt depth ts).result = .ok e ↔
      Derives (fun t e => parsePrimary t = .ok e) .sum ts e ∧ depth + peak ts ≤ nestingLimit := by
  refine ⟨?_,?_⟩
  · intro h
    have hd := derives_of_result_eq_ok h (Level.covers_sum ts)
    exact ⟨hd,(hd.result_eq_ok_iff depth).1 h⟩
  · intro h
    exact (h.1.result_eq_ok_iff depth).2 h.2

/-- A list is read as a tree exactly if it is a sum with that tree, its numerals are finite and no
prefix opens more parentheses than the limit above those it closes. A list has one tree at most. -/
theorem parseExpr_eq_ok_iff_derives (ts : List Token) :
    (∀ e, (parseExpr ts).result = .ok e ↔
      Derives Denotes .sum ts e ∧ (∀ t ∈ ts, ReadsFinite t) ∧
        ∀ before, before <+: ts → balance before ≤ nestingLimit) ∧
    ∀ e e', Derives Denotes .sum ts e → Derives Denotes .sum ts e' → e = e' := by
  refine ⟨?_,?_⟩
  · intro e
    rw [parseExpr,result_parseExprAt_eq_ok_iff,derives_readable_iff,and_assoc,← peak_le_iff]
    simp
  · intro e e' h h'
    exact Derives.unambiguous (fun _ _ _ hd hd' => hd.unique hd') h h'

end LetPrint
