import LetPrint.Program
import LetPrint.Proofs.Grammar

/-!
The text of a program with no parentheses but those its trees need. How numbers are written is a
parameter. The tokens of a tree are a phrase of the grammar with that tree, and no other phrase with
it has its parentheses nested less deep.
-/

set_option autoImplicit false

namespace LetPrint

/-- The level of what stands to the left of an operator; chains of a tier grow there. -/
def Tier.leftLevel : Tier → Level
  | additive => .sum
  | multiplicative => .product

def Tier.rightLevel : Tier → Level
  | additive => .product
  | multiplicative => .factor

theorem Derives.operation {Leaf : Token → Expr → Prop} {level : Level} {ls rs : List Token}
    {t : Token} {op : BinaryOperator} {l r : Expr} (hm : op.tier ∈ level.tiers)
    (ht : t.kind = op.kind) (hl : Derives Leaf op.tier.leftLevel ls l)
    (hr : Derives Leaf op.tier.rightLevel rs r) :
    Derives Leaf level (ls ++ t :: rs) (.binary op l r) := by
  cases hop : op.tier with
  | additive =>
    rw [hop] at hm hl hr
    cases level with
    | sum => exact .sum hop ht hl hr
    | product => simp [Level.tiers] at hm
    | factor => simp [Level.tiers] at hm
  | multiplicative =>
    rw [hop] at hm hl hr
    cases level with
    | sum => exact .ofProduct (.product hop ht hl hr)
    | product => exact .product hop ht hl hr
    | factor => simp [Level.tiers] at hm

namespace Expr

def leaves : Expr → List Expr
  | number x => [number x]
  | identifier name => [identifier name]
  | binary _ l r => l.leaves ++ r.leaves

def tier? : Expr → Option Tier
  | binary op _ _ => some op.tier
  | _ => none

def parenthesized (needed : Bool) (ts : List Token) : List Token :=
  if needed then ⟨.lparen,"("⟩ :: (ts ++ [⟨.rparen,")"⟩]) else ts

/-- A left operand is put in parentheses if it is an operation of a looser tier, a right operand
also if it is one of the same tier. -/
def tokens (w : Binary64 → String) : Expr → List Token
  | number x => [⟨.number,w x⟩]
  | identifier name => [⟨.ident,name⟩]
  | binary op l r =>
    parenthesized (l.tier?.any fun t => t < op.tier) (l.tokens w) ++ ⟨op.kind,op.symbol⟩ ::
      parenthesized (r.tier?.any fun t => t < op.tier ∨ t = op.tier) (r.tokens w)

def fits (level : Level) (e : Expr) : Bool := e.tier?.all fun t => t ∈ level.tiers

def operand (w : Binary64 → String) (level : Level) (e : Expr) : List Token :=
  parenthesized (!e.fits level) (e.tokens w)

section Tokens

variable {w : Binary64 → String} {level : Level}

theorem operand_of_fits {e : Expr} (h : e.fits level = true) : e.operand w level = e.tokens w := by
  simp [operand,parenthesized,h]

theorem operand_of_not_fits {e : Expr} (h : e.fits level = false) :
    e.operand w level = ⟨.lparen,"("⟩ :: (e.tokens w ++ [⟨.rparen,")"⟩]) := by
  simp [operand,parenthesized,h]

theorem fits_sum (e : Expr) : e.fits .sum = true := by
  cases e with
  | number x => rfl
  | identifier name => rfl
  | binary op l r => cases op <;> rfl

theorem fits_product_of_fits_factor {e : Expr} (h : e.fits .factor = true) :
    e.fits .product = true := by
  cases e with
  | number x => rfl
  | identifier name => rfl
  | binary op l r => cases op <;> simp [fits,tier?,Level.tiers] at h

theorem fits_binary {op : BinaryOperator} {l r : Expr} :
    (binary op l r).fits level = true ↔ op.tier ∈ level.tiers := by simp [fits,tier?]

theorem tokens_binary (op : BinaryOperator) (l r : Expr) :
    (binary op l r).tokens w =
      l.operand w op.tier.leftLevel ++ ⟨op.kind,op.symbol⟩ :: r.operand w op.tier.rightLevel := by
  have hl : (l.tier?.any fun t => t < op.tier) = !l.fits op.tier.leftLevel := by
    cases l with
    | number x => rfl
    | identifier name => rfl
    | binary inner _ _ => cases inner <;> cases op <;> rfl
  have hr : (r.tier?.any fun t => t < op.tier ∨ t = op.tier) = !r.fits op.tier.rightLevel := by
    cases r with
    | number x => rfl
    | identifier name => rfl
    | binary inner _ _ => cases inner <;> cases op <;> rfl
  rw [tokens,hl,hr,operand,operand]

end Tokens

theorem forall_mem_tokens {P : Token → Prop} {w : Binary64 → String} {e : Expr}
    (hop : ∀ op : BinaryOperator, P ⟨op.kind,op.symbol⟩) (hl : P ⟨.lparen,"("⟩)
    (hr : P ⟨.rparen,")"⟩) (h : ∀ leaf ∈ e.leaves, ∀ t ∈ leaf.tokens w, P t) :
    ∀ t ∈ e.tokens w, P t := by
  have hp : ∀ (needed : Bool) (ts : List Token), (∀ t ∈ ts, P t) →
      ∀ t ∈ parenthesized needed ts, P t := by
    intro needed ts hts
    cases needed with
    | false => exact hts
    | true => simpa [parenthesized,or_imp,forall_and,hl,hr] using hts
  induction e with
  | number x => exact h _ (by simp [leaves])
  | identifier name => exact h _ (by simp [leaves])
  | binary op l r ihl ihr =>
    rw [leaves,List.forall_mem_append] at h
    rw [tokens,List.forall_mem_append,List.forall_mem_cons]
    exact ⟨hp _ _ (ihl h.1),hop op,hp _ _ (ihr h.2)⟩

theorem cases_of_mem_leaves {w : Binary64 → String} {e leaf : Expr} {t : Token}
    (h : leaf ∈ e.leaves) (ht : t ∈ leaf.tokens w) :
    (∃ x, leaf = number x ∧ t = ⟨.number,w x⟩) ∨
      ∃ name, leaf = identifier name ∧ t = ⟨.ident,name⟩ := by
  induction e with
  | number x =>
    obtain rfl := List.mem_singleton.1 h
    exact .inl ⟨x,rfl,List.mem_singleton.1 ht⟩
  | identifier name =>
    obtain rfl := List.mem_singleton.1 h
    exact .inr ⟨name,rfl,List.mem_singleton.1 ht⟩
  | binary op l r hl hr =>
    rcases List.mem_append.1 h with h | h
    · exact hl h
    · exact hr h

section Derivations

variable {Leaf : Token → Expr → Prop} {w : Binary64 → String} {level : Level} {e : Expr}

theorem derives_operand
    (h : ∀ level : Level, e.fits level = true → Derives Leaf level (e.tokens w) e)
    (level : Level) : Derives Leaf level (e.operand w level) e := by
  by_cases hf : e.fits level = true
  · rw [operand_of_fits hf]
    exact h level hf
  · rw [operand_of_not_fits (Bool.not_eq_true _ ▸ hf)]
    exact (Derives.group rfl rfl (h .sum e.fits_sum)).ofFactorAt level

theorem derives_tokens (h : ∀ leaf ∈ e.leaves, ∀ t ∈ leaf.tokens w, Leaf t leaf)
    (hf : e.fits level = true) : Derives Leaf level (e.tokens w) e := by
  induction e generalizing level with
  | number x =>
    have hx := h (.number x) (by simp [leaves]) _ (List.mem_singleton_self _)
    exact (Derives.literal rfl hx).ofFactorAt level
  | identifier name =>
    have hn := h (.identifier name) (by simp [leaves]) _ (List.mem_singleton_self _)
    exact (Derives.literal rfl hn).ofFactorAt level
  | binary op l r hl hr =>
    have dl := derives_operand fun _ hf =>
      hl (fun leaf hm => h leaf (List.mem_append_left _ hm)) hf
    have dr := derives_operand fun _ hf =>
      hr (fun leaf hm => h leaf (List.mem_append_right _ hm)) hf
    rw [tokens_binary]
    exact .operation (fits_binary.1 hf) rfl (dl _) (dr _)

theorem closed_tokens (w : Binary64 → String) (e : Expr) : Closed (e.tokens w) := by
  have h : Derives (fun _ _ => True) .sum (e.tokens w) e :=
    derives_tokens (fun _ _ _ _ => trivial) e.fits_sum
  exact h.closed

theorem closed_operand (w : Binary64 → String) (level : Level) (e : Expr) :
    Closed (e.operand w level) := by
  by_cases hf : e.fits level = true
  · rw [operand_of_fits hf]
    exact e.closed_tokens w
  · rw [operand_of_not_fits (Bool.not_eq_true _ ▸ hf)]
    exact (e.closed_tokens w).enclosed rfl rfl

theorem peak_operand_of_not_fits (hf : e.fits level = false) :
    peak (e.operand w level) = 1 + peak (e.tokens w) := by
  rw [operand_of_not_fits hf]
  exact peak_enclosed rfl rfl (e.closed_tokens w).1

theorem peak_tokens_le_operand (w : Binary64 → String) (level : Level) (e : Expr) :
    peak (e.tokens w) ≤ peak (e.operand w level) := by
  cases hf : e.fits level with
  | true => simp [operand_of_fits hf]
  | false => rw [peak_operand_of_not_fits hf]; omega

theorem peak_tokens_binary_le {ls rs : List Token} {t : Token} {op : BinaryOperator} {l r : Expr}
    (ht : t.kind = op.kind) (hb : balance ls = 0)
    (hl : peak (l.operand w op.tier.leftLevel) ≤ peak ls)
    (hr : peak (r.operand w op.tier.rightLevel) ≤ peak rs) :
    peak ((binary op l r).tokens w) ≤ peak (ls ++ t :: rs) := by
  have hc := (l.closed_operand w op.tier.leftLevel).1
  have hk : (⟨op.kind,op.symbol⟩ : Token).kind.isParenthesis = false :=
    BinaryOperator.not_isParenthesis rfl
  rw [tokens_binary,peak_around _ hc hk,peak_around _ hb (BinaryOperator.not_isParenthesis ht)]
  omega

/-- No phrase of the level with this tree nests less deep than the one that is printed. -/
theorem peak_operand_le {ts : List Token} (hleaf : ∀ t e, Leaf t e → e.tier? = none)
    (h : Derives Leaf level ts e) : peak (e.operand w level) ≤ peak ts := by
  induction h with
  | @ofProduct ts e _ ih =>
    have hp := e.peak_tokens_le_operand w .product
    rw [operand_of_fits e.fits_sum]
    omega
  | @ofFactor ts e _ ih =>
    by_cases hf : e.fits .product = true
    · have hp := e.peak_tokens_le_operand w .factor
      rw [operand_of_fits hf]
      omega
    · have hn : e.fits .factor = false := by
        simpa using mt fits_product_of_fits_factor hf
      rw [peak_operand_of_not_fits hn] at ih
      rw [peak_operand_of_not_fits (Bool.not_eq_true _ ▸ hf)]
      exact ih
  | @sum ls rs t op l r hop ht dl _ hl hr =>
    have hf : (binary op l r).fits .sum = true := fits_sum _
    rw [operand_of_fits hf]
    refine peak_tokens_binary_le ht dl.closed.1 ?_ ?_
    · rw [hop]; exact hl
    · rw [hop]; exact hr
  | @product ls rs t op l r hop ht dl _ hl hr =>
    have hf : (binary op l r).fits .product = true :=
      fits_binary.2 (by rw [hop]; simp [Level.tiers])
    rw [operand_of_fits hf]
    refine peak_tokens_binary_le ht dl.closed.1 ?_ ?_
    · rw [hop]; exact hl
    · rw [hop]; exact hr
  | @literal t e ht hl =>
    have he := hleaf t e hl
    have hn := peak_nonneg [t]
    cases e with
    | binary op l r => simp [tier?] at he
    | number x => exact hn
    | identifier name => exact hn
  | @group l r inner e hl hr d ih =>
    -- in parentheses the tree stood at the level of sums, so at most one pair is added to it
    rw [operand_of_fits e.fits_sum] at ih
    rw [peak_enclosed hl hr d.closed.1]
    cases hf : e.fits .factor with
    | true => rw [operand_of_fits hf]; omega
    | false => rw [peak_operand_of_not_fits hf]; omega

theorem exists_of_mem_leaves {ts : List Token} {leaf : Expr}
    (hleaf : ∀ t e, Leaf t e → e.tier? = none) (h : Derives Leaf level ts e)
    (hm : leaf ∈ e.leaves) : ∃ t ∈ ts, Leaf t leaf := by
  induction h with
  | ofProduct _ ih => exact ih hm
  | ofFactor _ ih => exact ih hm
  | sum _ _ _ _ hl hr | product _ _ _ _ hl hr =>
    rcases List.mem_append.1 hm with hm | hm
    · obtain ⟨t,ht,h⟩ := hl hm
      exact ⟨t,by simp [ht],h⟩
    · obtain ⟨t,ht,h⟩ := hr hm
      exact ⟨t,by simp [ht],h⟩
  | @literal t e _ hl =>
    have he := hleaf t e hl
    cases e with
    | binary op l r => simp [tier?] at he
    | number x | identifier name =>
      rw [List.mem_singleton.1 hm]
      exact ⟨t,List.mem_singleton_self t,hl⟩
  | group _ _ _ ih =>
    obtain ⟨t,ht,h⟩ := ih hm
    exact ⟨t,by simp [ht],h⟩

end Derivations

end Expr

namespace Stmt

def tokens (w : Binary64 → String) : Stmt → List Token
  | define name value =>
    ⟨.letKeyword,"let"⟩ :: ⟨.ident,name⟩ :: ⟨.equal,"="⟩ :: value.tokens w
  | print value => ⟨.printKeyword,"print"⟩ :: value.tokens w

theorem cases_of_mem_tokens {w : Binary64 → String} {s : Stmt} {t : Token} (h : t ∈ s.tokens w) :
    t = ⟨.letKeyword,"let"⟩ ∨ t = ⟨.printKeyword,"print"⟩ ∨ t = ⟨.equal,"="⟩ ∨
      (∃ name value, s = define name value ∧ t = ⟨.ident,name⟩) ∨ t ∈ s.value.tokens w := by
  cases s with
  | define name value =>
    simp only [tokens,List.mem_cons] at h
    rcases h with h | h | h | h
    · exact .inl h
    · exact .inr (.inr (.inr (.inl ⟨name,value,rfl,h⟩)))
    · exact .inr (.inr (.inl h))
    · exact .inr (.inr (.inr (.inr h)))
  | print value =>
    rcases List.mem_cons.1 h with h | h
    · exact .inr (.inl h)
    · exact .inr (.inr (.inr (.inr h)))

theorem balance_tokens (w : Binary64 → String) (s : Stmt) : balance (s.tokens w) = 0 := by
  have h := (s.value.closed_tokens w).1
  cases s <;> simpa [tokens,value,balance,TokenKind.nesting] using h

theorem peak_tokens (w : Binary64 → String) (s : Stmt) :
    peak (s.tokens w) = peak (s.value.tokens w) := by
  have h := peak_nonneg (s.value.tokens w)
  cases s <;> simpa [tokens,value,peak,TokenKind.nesting] using Int.max_eq_right h

end Stmt

namespace Program

def leaves (p : Program) : List Expr := p.body.flatMap fun s => s.value.leaves

def tokens (w : Binary64 → String) (p : Program) : List Token :=
  p.body.flatMap fun s => s.tokens w ++ [⟨.semicolon,";"⟩]

def print (w : Binary64 → String) (p : Program) : String :=
  " ".intercalate ((p.tokens w).map Token.text)

theorem peak_tokens_le_iff {w : Binary64 → String} {p : Program} {limit : Int} (hl : 0 ≤ limit) :
    peak (p.tokens w) ≤ limit ↔ ∀ s ∈ p.body, peak (s.value.tokens w) ≤ limit := by
  obtain ⟨body⟩ := p
  induction body with
  | nil => simpa [tokens,peak] using hl
  | cons s body ih =>
    have hb := s.balance_tokens w
    have hs : tokens w ⟨s :: body⟩ = s.tokens w ++ ⟨.semicolon,";"⟩ :: tokens w ⟨body⟩ := by
      simp [tokens]
    rw [hs,peak_around _ hb rfl,s.peak_tokens w,Int.max_le,ih,List.forall_mem_cons]

end Program

end LetPrint
