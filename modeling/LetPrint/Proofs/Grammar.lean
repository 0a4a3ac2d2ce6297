import LetPrint.Proofs.Peeling

/-!
The grammar of expressions, left recursive and unambiguous:

    sum     ::= product | sum (+|-) product
    product ::= factor | product (*|/) factor
    factor  ::= number | identifier | ( sum )

A phrase of a level shows at top level only operators of that level's tiers, which is what ties a
derivation to the search for the rightmost operator of the loosest tier. A token list is read as an
expression exactly if it is a sum whose numerals are finite and whose parentheses nest within the
limit.
-/

set_option autoImplicit false

namespace LetPrint

inductive Level where
  | sum
  | product
  | factor
  deriving DecidableEq, Repr

/-- The tiers whose operators may stand at top level in a phrase of the level. -/
def Level.tiers : Level → List Tier
  | sum => [.additive,.multiplicative]
  | product => [.multiplicative]
  | factor => []

/-- Outside its parentheses a token list has no operator that the level does not allow there. -/
def Level.Covers (level : Level) (ts : List Token) : Prop :=
  ∀ tier : Tier, tier ∉ level.tiers → ¬ HasTopLevel tier.operators ts

theorem Level.covers_sum (ts : List Token) : sum.Covers ts := by
  intro tier ht
  cases tier <;> simp [tiers] at ht

theorem Level.covers_product_iff {ts : List Token} :
    product.Covers ts ↔ ¬ HasTopLevel Tier.additive.operators ts := by
  refine ⟨fun h => h .additive (by decide),?_⟩
  intro h tier ht
  cases tier with
  | additive => exact h
  | multiplicative => simp [tiers] at ht

/-- A token list is a phrase of a level and has a tree. What the literals stand for is a parameter;
parentheses leave no node. -/
inductive Derives (Leaf : Token → Expr → Prop) : Level → List Token → Expr → Prop where
  | ofProduct {ts : List Token} {e : Expr} : Derives Leaf .product ts e → Derives Leaf .sum ts e
  | sum {ls rs : List Token} {t : Token} {op : BinaryOperator} {l r : Expr} :
      op.tier = .additive → t.kind = op.kind → Derives Leaf .sum ls l → Derives Leaf .product rs r →
      Derives Leaf .sum (ls ++ t :: rs) (.binary op l r)
  | ofFactor {ts : List Token} {e : Expr} : Derives Leaf .factor ts e → Derives Leaf .product ts e
  | product {ls rs : List Token} {t : Token} {op : BinaryOperator} {l r : Expr} :
      op.tier = .multiplicative → t.kind = op.kind → Derives Leaf .product ls l →
      Derives Leaf .factor rs r → Derives Leaf .product (ls ++ t :: rs) (.binary op l r)
  | literal {t : Token} {e : Expr} : t.isLiteral = true → Leaf t e → Derives Leaf .factor [t] e
  | group {l r : Token} {inner : List Token} {e : Expr} :
      l.kind = .lparen → r.kind = .rparen → Derives Leaf .sum inner e →
      Derives Leaf .factor (l :: (inner ++ [r])) e

/-- What a literal token stands for. The value of a numeral need not be finite. -/
inductive Denotes : Token → Expr → Prop where
  | number {t : Token} {x : Binary64} :
      t.kind = .number → Binary64.read? t.text = some x → Denotes t (.number x)
  | identifier {t : Token} : t.kind = .ident → Denotes t (.identifier t.text)

theorem Denotes.unique {t : Token} {e e' : Expr} (h : Denotes t e) (h' : Denotes t e') :
    e = e' := by
  cases h <;> cases h' <;> simp_all

section Operators

variable {ls rs : List Token} {t : Token} {op : BinaryOperator}

theorem BinaryOperator.not_isParenthesis {k : TokenKind} {op : BinaryOperator} (h : k = op.kind) :
    k.isParenthesis = false := by rw [h]; cases op <;> rfl

theorem BinaryOperator.not_isLiteral {k : TokenKind} {op : BinaryOperator} (h : k = op.kind) :
    k.isLiteral = false := by rw [h]; cases op <;> rfl

theorem isTopLevel_of_operator (ls : List Token) (ht : t.kind = op.kind) (hb : balance rs = 0) :
    (⟨ls,t,rs⟩ : Split).IsTopLevel op.tier.operators :=
  ⟨by rw [ht]; exact BinaryOperator.mem_operators_iff.2 rfl,
    BinaryOperator.not_isParenthesis ht,hb⟩

theorem outermost?_of_operator (ht : t.kind = op.kind) (hb : balance rs = 0)
    (hr : ¬ HasTopLevel op.tier.operators rs)
    (hl : ∀ looser : Tier, looser < op.tier → ¬ HasTopLevel looser.operators (ls ++ t :: rs)) :
    Split.outermost? (ls ++ t :: rs) = some ⟨ls,t,rs⟩ :=
  Split.outermost?_eq_some_iff.2
    ⟨op.tier,Split.rightmost?_eq_some_iff.2 ⟨rfl,isTopLevel_of_operator ls ht hb,hr⟩,hl⟩

end Operators

theorem Form.ofRange_singleton {t : Token} (h : t.isLiteral = true) :
    Form.ofRange [t] = .literal t := by simp [ofRange,loneLiteral?,h]

theorem Form.ofRange_enclosed {l r : Token} {inner : List Token} (hl : l.kind = .lparen)
    (hr : r.kind = .rparen) (h : Closed inner) :
    Form.ofRange (l :: (inner ++ [r])) = .group inner := by
  have hn : loneLiteral? (l :: (inner ++ [r])) = none := by
    obtain ⟨u,us,hu⟩ : ∃ u us, inner ++ [r] = u :: us := List.exists_cons_of_ne_nil (by simp)
    rw [hu]; rfl
  simp [ofRange,hn,isGroup_enclosed_iff.2 ⟨hl,hr,h⟩]

theorem Form.eq_of_ofRange_literal {ts : List Token} {t : Token} (h : ofRange ts = literal t) :
    ts = [t] ∧ t.isLiteral = true := by
  unfold ofRange at h
  split at h
  · rename_i u hu
    cases h
    exact loneLiteral?_eq_some_iff.1 hu
  · split at h
    · cases h
    · split at h
      · cases h
      · split at h <;> cases h

def EveryLiteral (P : Token → Prop) (ts : List Token) : Prop :=
  ∀ t ∈ ts, t.isLiteral = true → P t

theorem everyLiteral_around {P : Token → Prop} {ls rs : List Token} {t : Token}
    (ht : t.kind.isLiteral = false) :
    EveryLiteral P (ls ++ t :: rs) ↔ EveryLiteral P ls ∧ EveryLiteral P rs := by
  simp only [EveryLiteral,List.forall_mem_append,List.forall_mem_cons,Token.isLiteral,ht]
  simp

theorem everyLiteral_enclosed {P : Token → Prop} {l r : Token} {inner : List Token}
    (hl : l.kind = .lparen) (hr : r.kind = .rparen) :
    EveryLiteral P (l :: (inner ++ [r])) ↔ EveryLiteral P inner := by
  simp [EveryLiteral,or_imp,forall_and,Token.isLiteral,hl,hr,TokenKind.isLiteral]

namespace Derives

variable {Leaf : Token → Expr → Prop} {level : Level} {ts : List Token} {e : Expr} {depth : Nat}

theorem ofFactorAt (h : Derives Leaf .factor ts e) (level : Level) : Derives Leaf level ts e := by
  cases level with
  | sum => exact .ofProduct (.ofFactor h)
  | product => exact .ofFactor h
  | factor => exact h

theorem closed (h : Derives Leaf level ts e) : Closed ts := by
  induction h with
  | ofProduct _ ih => exact ih
  | ofFactor _ ih => exact ih
  | sum _ ht _ _ hl hr => exact hl.around (BinaryOperator.not_isParenthesis ht) hr
  | product _ ht _ _ hl hr => exact hl.around (BinaryOperator.not_isParenthesis ht) hr
  | @literal t _ ht _ =>
    exact .singleton (by cases hk : t.kind <;> simp_all [Token.isLiteral,TokenKind.isLiteral,
      TokenKind.isParenthesis])
  | group hl hr _ ih => exact ih.enclosed hl hr

theorem covers (h : Derives Leaf level ts e) : level.Covers ts := by
  induction h with
  | ofProduct _ _ => exact Level.covers_sum _
  | sum _ _ _ _ _ _ => exact Level.covers_sum _
  | ofFactor _ ih =>
    intro tier _
    exact ih tier (by simp [Level.tiers])
  | @product ls rs t op l r hop hk dl dr hl hr =>
    rw [Level.covers_product_iff] at hl ⊢
    have htop := isTopLevel_of_operator ls hk dr.closed.1
    rw [show ls ++ t :: rs = (⟨ls,t,rs⟩ : Split).range from rfl,htop.hasTopLevel_range_iff]
    intro h
    rcases h with h | h | h
    · exact hl h
    · have ho := BinaryOperator.mem_operators_iff.1 (hk ▸ h)
      rw [hop] at ho
      cases ho
    · exact hr .additive (by simp [Level.tiers]) h
  | @literal t _ hl _ =>
    intro tier _
    rw [hasTopLevel_cons]
    intro h
    rcases h with ⟨hk,-,-⟩ | h
    · have ha := TokenKind.not_isLiteral_of_isArithmetic (Tier.isArithmetic_of_mem hk)
      rw [Token.isLiteral,ha] at hl
      cases hl
    · exact not_hasTopLevel_nil _ h
  | group hl hr d _ =>
    intro tier _
    exact not_hasTopLevel_of_isGroup (isGroup_enclosed_iff.2 ⟨hl,hr,d.closed⟩)

theorem outermost?_sum (ls : List Token) {rs : List Token} {t : Token} {op : BinaryOperator}
    {r : Expr} (hop : op.tier = .additive) (ht : t.kind = op.kind) (hr : Derives Leaf .product rs r) :
    Split.outermost? (ls ++ t :: rs) = some ⟨ls,t,rs⟩ := by
  refine outermost?_of_operator ht hr.closed.1 (hr.covers _ ?_) ?_
  · rw [hop]; decide
  · intro looser hl
    rw [hop] at hl
    exact absurd hl looser.not_lt_additive

theorem outermost?_product {ls rs : List Token} {t : Token} {op : BinaryOperator} {l r : Expr}
    (hop : op.tier = .multiplicative) (ht : t.kind = op.kind) (hl : Derives Leaf .product ls l)
    (hr : Derives Leaf .factor rs r) : Split.outermost? (ls ++ t :: rs) = some ⟨ls,t,rs⟩ := by
  refine outermost?_of_operator ht hr.closed.1 (hr.covers _ ?_) ?_
  · simp [Level.tiers]
  · intro looser hlt
    rw [Tier.eq_additive_of_lt hlt]
    exact Level.covers_product_iff.1 (Derives.product hop ht hl hr).covers

theorem of_outermost {s : Split} {op : BinaryOperator} {l r : Expr}
    (hs : Split.outermost? s.range = some s) (ht : s.operator.kind = op.kind)
    (hc : level.Covers s.range)
    (hl : ∀ level : Level, level.Covers s.left → Derives Leaf level s.left l)
    (hr : ∀ level : Level, level.Covers s.right → Derives Leaf level s.right r) :
    Derives Leaf level s.range (.binary op l r) := by
  obtain ⟨tier,hrm,hlooser⟩ := Split.outermost?_eq_some_iff.1 hs
  obtain ⟨-,htop,hright⟩ := Split.rightmost?_eq_some_iff.1 hrm
  have hop : op.tier = tier := BinaryOperator.mem_operators_iff.1 (ht ▸ htop.kind_mem)
  have hm : tier ∈ level.tiers := by
    by_contra hm
    exact hc tier hm ⟨s,rfl,htop⟩
  cases tier with
  | additive =>
    have dl := hl .sum (Level.covers_sum _)
    have dr := hr .product (Level.covers_product_iff.2 hright)
    cases level with
    | sum => exact .sum hop ht dl dr
    | product => simp [Level.tiers] at hm
    | factor => simp [Level.tiers] at hm
  | multiplicative =>
    have hadd := mt htop.hasTopLevel_range_iff.2 (hlooser .additive (by decide))
    have dl := hl .product (Level.covers_product_iff.2 fun h => hadd (.inl h))
    have hcover : Level.factor.Covers s.right := by
      intro tier _
      cases tier with
      | additive => exact fun h => hadd (.inr (.inr h))
      | multiplicative => exact hright
    have dr := hr .factor hcover
    cases level with
    | sum => exact .ofProduct (.product hop ht dl dr)
    | product => exact .product hop ht dl dr
    | factor => simp [Level.tiers] at hm

theorem toSum (h : Derives Leaf level ts e) : Derives Leaf .sum ts e := by
  cases level with
  | sum => exact h
  | product => exact .ofProduct h
  | factor => exact .ofProduct (.ofFactor h)

theorem by_form (h : Derives Leaf level ts e) :
    match Form.ofRange ts with
    | .literal t => Leaf t e
    | .group inner => Derives Leaf .sum inner e
    | .operation => ∃ s op l r, Split.outermost? ts = some s ∧ s.operator.kind = op.kind ∧
        e = .binary op l r ∧ Derives Leaf .sum s.left l ∧ Derives Leaf .sum s.right r
    | .missing | .formless => False := by
  induction h with
  | ofProduct _ ih => exact ih
  | ofFactor _ ih => exact ih
  | @sum ls _ _ _ _ _ hop ht dl dr _ _ =>
    have hs := outermost?_sum ls hop ht dr
    rw [Form.ofRange_of_outermost hs]
    exact ⟨_,_,_,_,hs,ht,rfl,dl,dr.toSum⟩
  | product hop ht dl dr _ _ =>
    have hs := outermost?_product hop ht dl dr
    rw [Form.ofRange_of_outermost hs]
    exact ⟨_,_,_,_,hs,ht,rfl,dl.toSum,dr.toSum⟩
  | literal ht hl => rw [Form.ofRange_singleton ht]; exact hl
  | group hl hr d _ => rw [Form.ofRange_enclosed hl hr d.closed]; exact d

/-- A token list has one tree at most. -/
theorem unambiguous {e' : Expr} (hu : ∀ t e e', Leaf t e → Leaf t e' → e = e')
    (h : Derives Leaf level ts e) (h' : Derives Leaf level ts e') : e = e' := by
  induction hn : ts.length using Nat.strongRecOn generalizing ts e e' level with
  | ind n ih =>
    subst hn
    have hf := h.by_form
    have hf' := h'.by_form
    cases hform : Form.ofRange ts with
    | missing => simp [hform] at hf
    | formless => simp [hform] at hf
    | literal t =>
      simp only [hform] at hf hf'
      exact hu t e e' hf hf'
    | group inner =>
      simp only [hform] at hf hf'
      exact ih _ (Form.length_lt_of_ofRange hform) hf hf' rfl
    | operation =>
      simp only [hform] at hf hf'
      obtain ⟨s,op,l,r,hs,hk,rfl,dl,dr⟩ := hf
      obtain ⟨s',op',l',r',hs',hk',rfl,dl',dr'⟩ := hf'
      obtain rfl := Option.some.inj (hs.symm.trans hs')
      have hlen := Split.length_of_outermost? hs
      have hop : op = op' := by
        have := (BinaryOperator.ofKind?_eq_some_iff.2 hk).symm.trans
          (BinaryOperator.ofKind?_eq_some_iff.2 hk')
        exact Option.some.inj this
      rw [hop,ih _ (by omega) dl dl' rfl,ih _ (by omega) dr dr' rfl]

theorem and_iff {P : Token → Prop} :
    Derives (fun t e => Leaf t e ∧ P t) level ts e ↔
      Derives Leaf level ts e ∧ EveryLiteral P ts := by
  refine ⟨?_,?_⟩
  · intro h
    induction h with
    | ofProduct _ ih => exact ⟨.ofProduct ih.1,ih.2⟩
    | ofFactor _ ih => exact ⟨.ofFactor ih.1,ih.2⟩
    | sum hop ht _ _ hl hr =>
      exact ⟨.sum hop ht hl.1 hr.1,
        (everyLiteral_around (BinaryOperator.not_isLiteral ht)).2 ⟨hl.2,hr.2⟩⟩
    | product hop ht _ _ hl hr =>
      exact ⟨.product hop ht hl.1 hr.1,
        (everyLiteral_around (BinaryOperator.not_isLiteral ht)).2 ⟨hl.2,hr.2⟩⟩
    | literal ht hl =>
      refine ⟨.literal ht hl.1,?_⟩
      intro u hu _
      rw [List.mem_singleton.1 hu]
      exact hl.2
    | group hl hr _ ih => exact ⟨.group hl hr ih.1,(everyLiteral_enclosed hl hr).2 ih.2⟩
  · intro h
    obtain ⟨h,hp⟩ := h
    induction h with
    | ofProduct _ ih => exact .ofProduct (ih hp)
    | ofFactor _ ih => exact .ofFactor (ih hp)
    | sum hop ht _ _ hl hr =>
      obtain ⟨pl,pr⟩ := (everyLiteral_around (BinaryOperator.not_isLiteral ht)).1 hp
      exact .sum hop ht (hl pl) (hr pr)
    | product hop ht _ _ hl hr =>
      obtain ⟨pl,pr⟩ := (everyLiteral_around (BinaryOperator.not_isLiteral ht)).1 hp
      exact .product hop ht (hl pl) (hr pr)
    | literal ht hl => exact .literal ht ⟨hl,hp _ (List.mem_singleton_self _) ht⟩
    | group hl hr _ ih => exact .group hl hr (ih ((everyLiteral_enclosed hl hr).1 hp))

end Derives

end LetPrint
