import LetPrint.Proofs.Acceptance
import LetPrint.Proofs.Printing

/-!
Parentheses isolate. A literal of a phrase is one leaf of its tree, and any factor may stand in its
place without a change to the rest of the tree. A group is a factor whatever is inside, so a name
may be replaced by any expression in parentheses as long as the limit of nesting allows it.
-/

set_option autoImplicit false

namespace LetPrint

/-- A tree with a hole in place of one of its parts. -/
inductive Expr.Context where
  | hole
  | left (operator : BinaryOperator) (c : Expr.Context) (r : Expr)
  | right (operator : BinaryOperator) (l : Expr) (c : Expr.Context)
  deriving DecidableEq, Repr

namespace Expr.Context

def fill : Context → Expr → Expr
  | hole, e => e
  | left op c r, e => binary op (c.fill e) r
  | right op l c, e => binary op l (c.fill e)

def before : Context → List Expr
  | hole => []
  | left _ c _ => c.before
  | right _ l c => l.leaves ++ c.before

def after : Context → List Expr
  | hole => []
  | left _ c r => c.after ++ r.leaves
  | right _ _ c => c.after

theorem leaves_fill (c : Context) (e : Expr) :
    (c.fill e).leaves = c.before ++ e.leaves ++ c.after := by
  induction c with
  | hole => simp [fill,before,after]
  | left op c r ih => simp [fill,before,after,leaves,ih]
  | right op l c ih => simp [fill,before,after,leaves,ih]

end Expr.Context

def literalCount (ts : List Token) : Nat := ts.countP Token.isLiteral

theorem literalCount_append (as bs : List Token) :
    literalCount (as ++ bs) = literalCount as + literalCount bs := List.countP_append

theorem literalCount_cons {t : Token} (ts : List Token) (h : t.isLiteral = false) :
    literalCount (t :: ts) = literalCount ts := List.countP_cons_of_neg (by simp [h])

theorem not_isLiteral_of_parentheses {l r : Token} (hl : l.kind = .lparen) (hr : r.kind = .rparen) :
    l.isLiteral = false ∧ r.isLiteral = false := by
  simp [Token.isLiteral,hl,hr,TokenKind.isLiteral]

section Places

variable {Leaf : Token → Expr → Prop} {level level' : Level} {ls rs pre post more : List Token}
  {t i : Token} {op : BinaryOperator} {l r e : Expr} {c : Expr.Context}

theorem literal_left_or_right (ht : t.isLiteral = false) (hi : i.isLiteral = true)
    (h : ls ++ t :: rs = pre ++ i :: post) :
    (∃ more, ls = pre ++ i :: more ∧ post = more ++ t :: rs) ∨
      ∃ more, pre = ls ++ t :: more ∧ rs = more ++ i :: post := by
  have hne : t ≠ i := by
    rintro rfl
    rw [ht] at hi
    cases hi
  rcases List.append_eq_append_iff.1 h with ⟨between,rfl,hb⟩ | ⟨between,rfl,hb⟩
  · cases between with
    | nil => exact absurd (List.cons.inj hb).1 hne
    | cons u between =>
      obtain ⟨rfl,rfl⟩ := List.cons.inj hb
      exact .inr ⟨between,rfl,rfl⟩
  · cases between with
    | nil => exact absurd (List.cons.inj hb).1.symm hne
    | cons u between =>
      obtain ⟨rfl,rfl⟩ := List.cons.inj hb
      exact .inl ⟨between,rfl,rfl⟩

theorem literal_inside {u v : Token} {inner : List Token} (hu : u.isLiteral = false)
    (hv : v.isLiteral = false) (hi : i.isLiteral = true)
    (h : u :: (inner ++ [v]) = pre ++ i :: post) :
    ∃ front back, pre = u :: front ∧ post = back ++ [v] ∧ inner = front ++ i :: back := by
  have h : [] ++ u :: (inner ++ [v]) = pre ++ i :: post := h
  rcases literal_left_or_right hu hi h with ⟨more,hm,-⟩ | ⟨front,rfl,hf⟩
  · simp at hm
  rcases literal_left_or_right hv hi hf with ⟨back,rfl,rfl⟩ | ⟨more,-,hm⟩
  · exact ⟨front,back,rfl,rfl,rfl⟩
  · simp at hm

theorem Derives.length_leaves (hone : ∀ t e, Leaf t e → e.leaves = [e]) {ts : List Token}
    (h : Derives Leaf level ts e) : e.leaves.length = literalCount ts := by
  induction h with
  | ofProduct _ ih => exact ih
  | ofFactor _ ih => exact ih
  | sum _ ht _ _ hl hr =>
    have hn := BinaryOperator.not_isLiteral ht
    rw [literalCount_append,literalCount_cons _ hn,Expr.leaves,List.length_append,hl,hr]
  | product _ ht _ _ hl hr =>
    have hn := BinaryOperator.not_isLiteral ht
    rw [literalCount_append,literalCount_cons _ hn,Expr.leaves,List.length_append,hl,hr]
  | literal ht hl => simp [hone _ _ hl,literalCount,ht]
  | @group u v inner e hu hv _ ih =>
    obtain ⟨hu,hv⟩ := not_isLiteral_of_parentheses hu hv
    rw [literalCount_cons _ hu,literalCount_append,literalCount_cons _ hv,ih]
    rfl

/-- The token between the two lists is read as what is in the hole, and any factor may stand there
instead. -/
structure Exchanges (Leaf : Token → Expr → Prop) (level : Level) (pre : List Token) (i : Token)
    (post : List Token) (e : Expr) (c : Expr.Context) : Prop where
  leaf : ∃ x, Leaf i x ∧ e = c.fill x
  place : c.before.length = literalCount pre
  factor : ∀ {ts t}, Derives Leaf .factor ts t → Derives Leaf level (pre ++ ts ++ post) (c.fill t)

theorem Exchanges.mono (h : Exchanges Leaf level pre i post e c)
    (hd : ∀ {ts t}, Derives Leaf level ts t → Derives Leaf level' ts t) :
    Exchanges Leaf level' pre i post e c := ⟨h.leaf,h.place,fun ht => hd (h.factor ht)⟩

theorem Exchanges.left (h : Exchanges Leaf level pre i more l c)
    (hd : ∀ {ls l}, Derives Leaf level ls l → Derives Leaf level' (ls ++ t :: rs) (.binary op l r)) :
    Exchanges Leaf level' pre i (more ++ t :: rs) (.binary op l r) (.left op c r) := by
  obtain ⟨⟨x,hx,rfl⟩,hp,hf⟩ := h
  refine ⟨⟨x,hx,rfl⟩,hp,?_⟩
  intro ts t' ht
  simpa [Expr.Context.fill] using hd (hf ht)

theorem Exchanges.right (h : Exchanges Leaf level more i post r c)
    (hl : l.leaves.length = literalCount ls) (ht : t.isLiteral = false)
    (hd : ∀ {rs r}, Derives Leaf level rs r → Derives Leaf level' (ls ++ t :: rs) (.binary op l r)) :
    Exchanges Leaf level' (ls ++ t :: more) i post (.binary op l r) (.right op l c) := by
  obtain ⟨⟨x,hx,rfl⟩,hp,hf⟩ := h
  refine ⟨⟨x,hx,rfl⟩,?_,?_⟩
  · rw [literalCount_append,literalCount_cons _ ht,← hp,← hl]
    simp [Expr.Context.before]
  · intro ts t' ht
    simpa [Expr.Context.fill] using hd (hf ht)

theorem Exchanges.enclosed {u v : Token} (hu : u.kind = .lparen) (hv : v.kind = .rparen)
    (h : Exchanges Leaf .sum pre i post e c) :
    Exchanges Leaf .factor (u :: pre) i (post ++ [v]) e c := by
  obtain ⟨hx,hp,hf⟩ := h
  have hn := (not_isLiteral_of_parentheses hu hv).1
  refine ⟨hx,by rw [literalCount_cons _ hn,hp],?_⟩
  intro ts t ht
  simpa using Derives.group hu hv (hf ht)

theorem exchanges_of_sides {leftLevel rightLevel : Level} (hi : i.isLiteral = true)
    (ht : t.isLiteral = false) (hs : ls ++ t :: rs = pre ++ i :: post)
    (hcount : l.leaves.length = literalCount ls) (dl : Derives Leaf leftLevel ls l)
    (dr : Derives Leaf rightLevel rs r)
    (hl : ∀ {pre post}, ls = pre ++ i :: post → ∃ c, Exchanges Leaf leftLevel pre i post l c)
    (hr : ∀ {pre post}, rs = pre ++ i :: post → ∃ c, Exchanges Leaf rightLevel pre i post r c)
    (hd : ∀ {ls rs l r}, Derives Leaf leftLevel ls l → Derives Leaf rightLevel rs r →
      Derives Leaf level (ls ++ t :: rs) (.binary op l r)) :
    ∃ c, Exchanges Leaf level pre i post (.binary op l r) c := by
  rcases literal_left_or_right ht hi hs with ⟨more,hls,rfl⟩ | ⟨more,rfl,hrs⟩
  · obtain ⟨c,hc⟩ := hl hls
    exact ⟨_,hc.left fun d => hd d dr⟩
  · obtain ⟨c,hc⟩ := hr hrs
    exact ⟨_,hc.right hcount ht fun d => hd dl d⟩

theorem Derives.exists_exchanges (hone : ∀ t e, Leaf t e → e.leaves = [e])
    (hi : i.isLiteral = true) {ts : List Token} (h : Derives Leaf level ts e)
    (hs : ts = pre ++ i :: post) : ∃ c, Exchanges Leaf level pre i post e c := by
  induction h generalizing pre post with
  | ofProduct _ ih =>
    obtain ⟨c,hc⟩ := ih hs
    exact ⟨c,hc.mono .ofProduct⟩
  | ofFactor _ ih =>
    obtain ⟨c,hc⟩ := ih hs
    exact ⟨c,hc.mono .ofFactor⟩
  | sum hop ht dl dr hl hr =>
    exact exchanges_of_sides hi (BinaryOperator.not_isLiteral ht) hs (dl.length_leaves hone) dl dr hl
      hr (.sum hop ht)
  | product hop ht dl dr hl hr =>
    exact exchanges_of_sides hi (BinaryOperator.not_isLiteral ht) hs (dl.length_leaves hone) dl dr hl
      hr (.product hop ht)
  | @literal u x hu hx =>
    obtain ⟨rfl,rfl,rfl⟩ : pre = [] ∧ i = u ∧ post = [] := by
      cases pre <;> simp_all
    refine ⟨.hole,⟨x,hx,rfl⟩,rfl,?_⟩
    intro ts t ht
    simpa [Expr.Context.fill] using ht
  | @group u v inner e hu hv d ih =>
    obtain ⟨hu',hv'⟩ := not_isLiteral_of_parentheses hu hv
    obtain ⟨front,back,rfl,rfl,rfl⟩ := literal_inside hu' hv' hi hs
    obtain ⟨c,hc⟩ := ih rfl
    exact ⟨c,hc.enclosed hu hv⟩

end Places

theorem leaves_of_parsePrimary (t : Token) (e : Expr) (h : parsePrimary t = .ok e) :
    e.leaves = [e] := by
  obtain ⟨hd,-⟩ := parsePrimary_eq_ok_iff.1 h
  cases hd <;> rfl

/-- Where a name stands, any expression in parentheses may stand. In the tree it takes the place of
the leaf that the name was, which has as many leaves before it as there are literals before the
name, and nothing else changes. -/
theorem parseExpr_substitute {pre post ts : List Token} {i l r : Token} {e t : Expr}
    (hi : i.kind = .ident) (hl : l.kind = .lparen) (hr : r.kind = .rparen)
    (he : (parseExpr (pre ++ [i] ++ post)).result = .ok e) (ht : (parseExpr ts).result = .ok t)
    (hn : ∀ before, before <+: pre ++ [l] ++ ts ++ [r] ++ post → balance before ≤ nestingLimit) :
    e.leaves[literalCount pre]? = some (.identifier i.text) ∧
    ∃ c : Expr.Context, c.before.length = literalCount pre ∧ e = c.fill (.identifier i.text) ∧
      (parseExpr (pre ++ [l] ++ ts ++ [r] ++ post)).result = .ok (c.fill t) := by
  have hlit : i.isLiteral = true := by rw [Token.isLiteral,hi]; rfl
  obtain ⟨hde,-⟩ := result_parseExprAt_eq_ok_iff.1 he
  obtain ⟨hdt,-⟩ := result_parseExprAt_eq_ok_iff.1 ht
  obtain ⟨c,⟨x,hx,rfl⟩,hp,hf⟩ := hde.exists_exchanges leaves_of_parsePrimary hlit
    (by rw [List.append_assoc,List.singleton_append])
  obtain rfl : x = .identifier i.text := by
    simp only [parsePrimary,hi] at hx
    exact (Except.ok.inj hx).symm
  refine ⟨?_,c,hp,rfl,?_⟩
  · simp [c.leaves_fill,Expr.leaves,← hp]
  · refine result_parseExprAt_eq_ok_iff.2 ⟨?_,?_⟩
    · simpa using hf (.group hl hr hdt)
    · have hpeak := peak_le_iff.2 hn
      simpa using hpeak

theorem parseExpr_substitute_factor :
    ∃ c : Expr.Context, c.before.length = 1 ∧
      .binary .multiply (.identifier "a") (.identifier "b") = c.fill (.identifier "b") ∧
      (parseExpr [⟨.ident,"a"⟩,⟨.mul,"*"⟩,⟨.lparen,"("⟩,⟨.ident,"c"⟩,⟨.plus,"+"⟩,⟨.ident,"d"⟩,
        ⟨.rparen,")"⟩]).result =
        .ok (c.fill (.binary .add (.identifier "c") (.identifier "d"))) := by
  have hname : ∀ name, (parseExprAt 0 [⟨.ident,name⟩]).result = .ok (.identifier name) := by
    intro name
    rw [result_parseExprAt (Nat.zero_le _),Form.ofRange_singleton rfl]
    rfl
  have hbinary : ∀ (op : BinaryOperator) (x y : String),
      (parseExpr [⟨.ident,x⟩,⟨op.kind,op.symbol⟩,⟨.ident,y⟩]).result =
        .ok (.binary op (.identifier x) (.identifier y)) := by
    intro op x y
    have hs : Split.outermost? [⟨.ident,x⟩,⟨op.kind,op.symbol⟩,⟨.ident,y⟩] =
        some ⟨[⟨.ident,x⟩],⟨op.kind,op.symbol⟩,[⟨.ident,y⟩]⟩ := by cases op <;> rfl
    exact (result_parseExprAt_of_outermost (Nat.zero_le _) hs rfl).trans
      (binary_eq_ok_iff.2 ⟨_,_,hname x,hname y,rfl⟩)
  exact (@parseExpr_substitute [⟨.ident,"a"⟩,⟨.mul,"*"⟩] [] _ ⟨.ident,"b"⟩ ⟨.lparen,"("⟩
    ⟨.rparen,")"⟩ _ _ rfl rfl rfl (hbinary .multiply "a" "b") (hbinary .add "c" "d")
    (peak_le_iff.1 (by decide))).2

end LetPrint
