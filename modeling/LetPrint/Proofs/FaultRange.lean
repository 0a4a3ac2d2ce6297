import LetPrint.Proofs.FirstFault
import LetPrint.Proofs.Operations
import LetPrint.Proofs.PlainRecursion
import Mathlib.Data.List.Infix

/-!
Where an expression is at fault. An error is raised on a part of the range: on a part that cannot be
taken apart any further, on a lone numeral, or on what stands inside one group more than the limit
allows. The first two are at fault by themselves and give the same error when they are read alone.
-/

set_option autoImplicit false

namespace LetPrint

/-- The range has none of the forms that are read through smaller parts or on their own. -/
structure Irreducible (ts : List Token) : Prop where
  not_literal : ∀ t, ts = [t] → t.isLiteral = false
  not_group : isGroup ts = false
  not_operation : ¬ HasOperator ts

/-- The list contains as many matching pairs of parentheses, each inside the one before, and the
last of them encloses the range and nothing else. -/
inductive EnclosedIn (range : List Token) : Nat → List Token → Prop where
  | self : EnclosedIn range 0 range
  | pair {before inner after : List Token} {l r : Token} {pairs : Nat} :
      l.kind = .lparen → r.kind = .rparen → Closed inner → EnclosedIn range pairs inner →
      EnclosedIn range (pairs+1) (before ++ (l :: (inner ++ [r])) ++ after)

/-- The error is raised on a part of the list, one that is at fault by itself or one with that many
pairs of parentheses around it. -/
inductive LocatedIn (ts : List Token) (pairs : Nat) : SyntaxError → Prop where
  | expression {fault : ExpressionFault} {range : List Token} :
      range <:+: ts → Irreducible range →
      (parseExpr range).result = .error ⟨.expression fault,range⟩ →
      LocatedIn ts pairs ⟨.expression fault,range⟩
  | number {t : Token} :
      t ∈ ts → t.kind = .number → (parseExpr [t]).result = .error ⟨.number t.text,[t]⟩ →
      LocatedIn ts pairs ⟨.number t.text,[t]⟩
  | nesting {range : List Token} :
      EnclosedIn range pairs ts → LocatedIn ts pairs ⟨.nesting nestingLimit,range⟩

section Parts

variable {range ts : List Token} {e : SyntaxError} {pairs : Nat}

theorem EnclosedIn.isInfix (h : EnclosedIn range pairs ts) : range <:+: ts := by
  induction h with
  | self => exact List.infix_rfl
  | @pair before inner after l r pairs _ _ _ _ ih =>
    refine ih.trans ⟨before ++ [l],[r] ++ after,?_⟩
    simp

theorem EnclosedIn.widen (h : EnclosedIn range (pairs+1) ts) (before after : List Token) :
    EnclosedIn range (pairs+1) (before ++ ts ++ after) := by
  cases h with
  | @pair before' inner after' l r _ hl hr hc h =>
    have h := @EnclosedIn.pair range (before ++ before') inner (after' ++ after) l r pairs hl hr hc h
    simpa using h

theorem LocatedIn.isInfix (h : LocatedIn ts pairs e) : e.tokens <:+: ts := by
  cases h with
  | expression hi => exact hi
  | number ht => exact (List.singleton_infix_iff _ _).2 ht
  | nesting h => exact h.isInfix

theorem LocatedIn.widen (h : LocatedIn ts (pairs+1) e) (before after : List Token) :
    LocatedIn (before ++ ts ++ after) (pairs+1) e := by
  cases h with
  | expression hi hr he => exact .expression (hi.trans ⟨before,after,rfl⟩) hr he
  | number ht hk he => exact .number (by simp [ht]) hk he
  | nesting h => exact .nesting (h.widen before after)

theorem LocatedIn.enclosed {l r : Token} {inner : List Token} (hl : l.kind = .lparen)
    (hr : r.kind = .rparen) (hc : Closed inner) (h : LocatedIn inner pairs e) :
    LocatedIn (l :: (inner ++ [r])) (pairs+1) e := by
  cases h with
  | expression hi hr he => exact .expression (hi.trans ⟨[l],[r],by simp⟩) hr he
  | number ht hk he => exact .number (by simp [ht]) hk he
  | @nesting range h =>
    have h := @EnclosedIn.pair range [] inner [] l r pairs hl hr hc h
    exact .nesting (by simpa using h)

end Parts

section Reading

variable {ts : List Token} {depth : Nat}

theorem irreducible_of_form (hl : ∀ t, Form.ofRange ts ≠ .literal t)
    (hg : ∀ inner, Form.ofRange ts ≠ .group inner) (hn : ¬ HasOperator ts) : Irreducible ts := by
  refine ⟨?_,?_,hn⟩
  · rintro t rfl
    cases ht : t.isLiteral with
    | false => rfl
    | true => exact absurd (Form.ofRange_singleton ht) (hl t)
  · cases ht : isGroup ts with
    | false => rfl
    | true =>
      obtain ⟨l,r,hts,hlk,hrk,hc⟩ := exists_enclosed_of_isGroup ht
      refine absurd ?_ (hg (interior ts))
      rw [hts]
      simpa using Form.ofRange_enclosed hlk hrk hc

theorem locatedIn_of_form {fault : ExpressionFault} (hl : ∀ t, Form.ofRange ts ≠ .literal t)
    (hg : ∀ inner, Form.ofRange ts ≠ .group inner) (hn : ¬ HasOperator ts)
    (h : (parseExprAt 0 ts).result = .error ⟨.expression fault,ts⟩) (pairs : Nat) :
    LocatedIn ts pairs ⟨.expression fault,ts⟩ :=
  .expression List.infix_rfl (irreducible_of_form hl hg hn) h

theorem locatedIn_of_parsePrimary {t : Token} {e : SyntaxError} (ht : t.isLiteral = true)
    (h : parsePrimary t = .error e) (pairs : Nat) : LocatedIn [t] pairs e := by
  have hf : ¬ ReadsFinite t := by
    intro hf
    obtain ⟨x,hx⟩ := exists_parsePrimary ht hf
    rw [hx] at h
    cases h
  have hk : t.kind = .number := by
    by_contra hk
    exact hf (readsFinite_of_kind hk)
  have hp := parsePrimary_of_not_readsFinite hf
  obtain rfl := Except.error.inj (hp.symm.trans h)
  refine .number (List.mem_singleton_self t) hk ?_
  rw [parseExpr,result_parseExprAt (Nat.zero_le _),Form.ofRange_singleton ht]
  exact hp

/-- Wherever the reading of a range starts, its error lies as many pairs deep as it still may go. -/
theorem locatedIn_of_plainExprAt {e : SyntaxError} (h : plainExprAt depth ts = .error e) :
    LocatedIn ts (nestingLimit + 1 - depth) e := by
  fun_induction plainExprAt depth ts with
  | case1 depth ts hd =>
    obtain rfl := Except.error.inj h
    rw [Nat.sub_eq_zero_of_le hd]
    exact .nesting .self
  | case2 depth ts hd t hf =>
    obtain ⟨rfl,ht⟩ := Form.eq_of_ofRange_literal hf
    exact locatedIn_of_parsePrimary ht h _
  | case3 depth ts hd inner hf _ ih =>
    obtain ⟨hg,rfl⟩ := Form.isGroup_of_ofRange hf
    obtain ⟨l,r,hts,hl,hr,hc⟩ := exists_enclosed_of_isGroup hg
    have hi := (ih h).enclosed hl hr hc
    rw [hts]
    rwa [show nestingLimit + 1 - (depth+1) + 1 = nestingLimit + 1 - depth by omega] at hi
  | case4 depth ts hd hf hs =>
    obtain rfl := Except.error.inj h
    refine locatedIn_of_form (by simp [hf]) (by simp [hf]) (not_hasOperator_iff.2 hs) ?_ _
    rw [result_parseExprAt (Nat.zero_le _),hf]
    exact result_parseChainAt_of_none hs
  | case5 depth ts hd hf s hs _ hop =>
    obtain ⟨op,hop',-⟩ := Split.exists_operator_of_outermost? hs
    rw [hop'] at hop
    cases hop
  | case6 depth ts hd hf s hs _ op hop ihl ihr =>
    -- within the limit at least one pair may still be opened, so a side is widened to the range
    have hp : nestingLimit + 1 - depth = nestingLimit - depth + 1 := by omega
    rw [← Split.range_of_outermost? hs,hp]
    rw [hp] at ihl ihr
    rcases binary_eq_error_iff.1 h with he | ⟨-,he⟩
    · simpa [Split.range] using (ihl he).widen [] (s.operator :: s.right)
    · simpa [Split.range] using (ihr he).widen (s.left ++ [s.operator]) []
  | case7 depth ts hd hf =>
    obtain rfl := Except.error.inj h
    have hn : ¬ HasOperator ts := fun ho => by simp [ho.form] at hf
    refine locatedIn_of_form (by simp [hf]) (by simp [hf]) hn ?_ _
    rw [result_parseExprAt (Nat.zero_le _),hf]
  | case8 depth ts hd hf =>
    obtain rfl := Except.error.inj h
    have hn : ¬ HasOperator ts := fun ho => by simp [ho.form] at hf
    refine locatedIn_of_form (by simp [hf]) (by simp [hf]) hn ?_ _
    rw [result_parseExprAt (Nat.zero_le _),hf]

theorem locatedIn_of_parseExpr {e : SyntaxError} (h : (parseExpr ts).result = .error e) :
    LocatedIn ts (nestingLimit+1) e := by
  rw [parseExpr,parseExprAt_eq_plainExprAt] at h
  exact locatedIn_of_plainExprAt h

theorem Irreducible.fault_cases {range : List Token} {fault : ExpressionFault}
    (hr : Irreducible range)
    (h : (parseExpr range).result = .error ⟨.expression fault,range⟩) :
    fault ∈ [ExpressionFault.noTopLevelOperator,.missingOperand,.formless] := by
  rw [parseExpr,result_parseExprAt (Nat.zero_le _)] at h
  cases hf : Form.ofRange range with
  | literal t =>
    obtain ⟨hts,ht⟩ := Form.eq_of_ofRange_literal hf
    rw [hr.not_literal t hts] at ht
    cases ht
  | group inner =>
    have hg := (Form.isGroup_of_ofRange hf).1
    rw [hr.not_group] at hg
    cases hg
  | operation =>
    simp only [hf,result_parseChainAt_of_none (not_hasOperator_iff.1 hr.not_operation)] at h
    cases h
    simp
  | missing =>
    simp only [hf] at h
    cases h
    simp
  | formless =>
    simp only [hf] at h
    cases h
    simp

/-- An error is on a part of the list. A faulty expression cannot be taken apart and a faulty numeral
stands alone, and either gives the error again; too deep is what one pair more than the limit
encloses. There are no other errors. -/
theorem parseExpr_error_located {e : SyntaxError} (h : (parseExpr ts).result = .error e) :
    e.tokens <:+: ts ∧
    match e.fault with
    | .expression _ => Irreducible e.tokens ∧ (parseExpr e.tokens).result = .error e
    | .number text => (∃ t, e.tokens = [t] ∧ t.kind = .number ∧ t.text = text) ∧
        (parseExpr e.tokens).result = .error e
    | .nesting limit => limit = nestingLimit ∧ EnclosedIn e.tokens (limit+1) ts
    | .statement _ | .unrecognised _ => False := by
  have hl := locatedIn_of_parseExpr h
  refine ⟨hl.isInfix,?_⟩
  cases hl with
  | expression _ hr he => exact ⟨hr,he⟩
  | @number t _ hk he => exact ⟨⟨t,rfl,hk,rfl⟩,he⟩
  | nesting hn => exact ⟨rfl,hn⟩

theorem parseExpr_error_located_group :
    ([⟨.ident,"b"⟩,⟨.ident,"c"⟩] : List Token) <:+: [⟨.ident,"a"⟩,⟨.plus,"+"⟩,⟨.lparen,"("⟩,
        ⟨.ident,"b"⟩,⟨.ident,"c"⟩,⟨.rparen,")"⟩] ∧
      Irreducible [⟨.ident,"b"⟩,⟨.ident,"c"⟩] ∧
      (parseExpr [⟨.ident,"b"⟩,⟨.ident,"c"⟩]).result =
        .error ⟨.expression .formless,[⟨.ident,"b"⟩,⟨.ident,"c"⟩]⟩ := by
  have hs : Split.outermost? [⟨.ident,"a"⟩,⟨.plus,"+"⟩,⟨.lparen,"("⟩,⟨.ident,"b"⟩,⟨.ident,"c"⟩,
      ⟨.rparen,")"⟩] = some ⟨[⟨.ident,"a"⟩],⟨.plus,"+"⟩,[⟨.lparen,"("⟩,⟨.ident,"b"⟩,⟨.ident,"c"⟩,
      ⟨.rparen,")"⟩]⟩ := by rfl
  have hl : (parseExprAt 0 [⟨.ident,"a"⟩]).result = .ok (.identifier "a") := by cbv
  have hr : (parseExprAt 0 [⟨.lparen,"("⟩,⟨.ident,"b"⟩,⟨.ident,"c"⟩,⟨.rparen,")"⟩]).result =
      .error ⟨.expression .formless,[⟨.ident,"b"⟩,⟨.ident,"c"⟩]⟩ := by cbv
  refine @parseExpr_error_located _ ⟨.expression .formless,_⟩ ?_
  have ht : TokenKind.plus = BinaryOperator.add.kind := rfl
  rw [parseExpr,result_parseExprAt_of_outermost (Nat.zero_le _) hs ht,hl,hr]
  rfl

end Reading

end LetPrint
