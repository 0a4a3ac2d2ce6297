import LetPrint.Proofs.Acceptance
import LetPrint.Proofs.Chains
import LetPrint.Proofs.Statements

/-!
What the trace of a reading adds up to. The events of a chain are those of the searches that cut it.
Events and tokens are weighed so that these weigh what the searches split at, and an unwrapped group
what its two parentheses do. Then all events of a successful reading weigh what its tokens do,
whichever the weights are: each operator is found once and each group is unwrapped once.
-/

set_option autoImplicit false

namespace LetPrint

def weight {α : Type} (w : α → Nat) : List α → Nat
  | [] => 0
  | a :: as => w a + weight w as

section Weights

variable {α β : Type}

@[simp] theorem weight_nil (w : α → Nat) : weight w [] = 0 := rfl

@[simp] theorem weight_cons (w : α → Nat) (a : α) (as : List α) :
    weight w (a :: as) = w a + weight w as := rfl

@[simp] theorem weight_append (w : α → Nat) (as bs : List α) :
    weight w (as ++ bs) = weight w as + weight w bs := by
  induction as with
  | nil => simp
  | cons a as ih => simp [ih,Nat.add_assoc]

theorem weight_map (w : β → Nat) (f : α → β) (as : List α) :
    weight w (as.map f) = weight (fun a => w (f a)) as := by
  induction as with
  | nil => rfl
  | cons a as ih => simp [ih]

theorem weight_of_forall {w : α → Nat} {n : Nat} {as : List α} (h : ∀ a ∈ as, w a = n) :
    weight w as = n * as.length := by
  induction as with
  | nil => rfl
  | cons a as ih =>
    rw [weight_cons,h a (by simp),ih fun b hb => h b (by simp [hb])]
    simp only [List.length_cons,Nat.mul_succ]; omega

theorem weight_toNat (p : α → Bool) (as : List α) :
    weight (fun a => (p a).toNat) as = as.countP p := by
  induction as with
  | nil => rfl
  | cons a as ih => cases hp : p a <;> simp [ih,hp]; omega

end Weights

namespace Traced

variable {α β : Type} {w : Event → Nat} {m n : Nat}

/-- If the computation succeeds, its events weigh `n` together. -/
def Weighs (w : Event → Nat) (x : Traced α) (n : Nat) : Prop :=
  ∀ a, x.result = .ok a → weight w x.events = n

theorem weighs_pure (w : Event → Nat) (a : α) : (pure a : Traced α).Weighs w 0 := fun _ _ => rfl

theorem weighs_ofResult (w : Event → Nat) (r : Except SyntaxError α) : (ofResult r).Weighs w 0 :=
  fun _ _ => rfl

theorem weighs_emitAll (w : Event → Nat) (events : List Event) :
    (emitAll events).Weighs w (weight w events) := fun _ _ => rfl

theorem weighs_emit (w : Event → Nat) (e : Event) : (emit e).Weighs w (w e) := by
  intro a _
  simp

theorem weighs_of_error {x : Traced α} {e : SyntaxError} (h : x.result = .error e) :
    x.Weighs w n := by
  intro a ha
  rw [h] at ha
  cases ha

theorem Weighs.bind {x : Traced α} {f : α → Traced β} (hx : x.Weighs w m)
    (hf : ∀ a, x.result = .ok a → (f a).Weighs w n) : (x >>= f).Weighs w (m + n) := by
  intro b hb
  obtain ⟨a,ha,hb⟩ := result_bind_eq_ok_iff.1 hb
  rw [bind_of_ok ha,weight_append,hx a ha,hf a ha b hb]

end Traced

def tokenWeight (v : TokenKind → Nat) (ts : List Token) : Nat := weight (fun t => v t.kind) ts

/-- The weights of events and of tokens agree step by step. A group within the limit is unwrapped at
a depth below it. -/
structure Balances (w : Event → Nat) (v : TokenKind → Nat) : Prop where
  literal : ∀ kind : TokenKind, kind.isLiteral = true → v kind = 0
  chain : ∀ tier depth (splits : List Split),
    (∀ s ∈ splits, s.operator.kind.isArithmetic = true) →
      weight (fun s => w s.found) splits + w (.chained tier splits.length depth) =
        weight (fun s => v s.operator.kind) splits
  group : ∀ depth, depth < nestingLimit → w (.unwrapped depth) = v .lparen + v .rparen

variable {w : Event → Nat} {v : TokenKind → Nat} {depth : Nat} {ts : List Token}

theorem IsChain.tokenWeight_eq {tier : Tier} {chain : Chain} (h : IsChain tier ts chain) :
    tokenWeight v ts = weight (fun s => v s.operator.kind) (Split.successive tier.operators ts) +
      (tokenWeight v chain.first + weight (fun l => tokenWeight v l.operand) chain.links) := by
  induction h with
  | single hn =>
    rw [Split.successive_of_none (Split.rightmost?_eq_none_iff.2 hn)]
    simp
  | snoc hs hr _ _ ih =>
    rw [Split.successive_of_some (Split.rightmost?_eq_some_iff.2 ⟨rfl,hs,hr⟩)]
    simp only [tokenWeight] at ih ⊢
    simp only [Split.range,Chain.snoc,weight_append,weight_cons,weight_nil]
    omega

namespace Balances

/-- The events of a chain are those of the searches, so they weigh what the searches split at. -/
theorem weight_found (hw : Balances w v) {tier : Tier} {chain : Chain} (h : IsChain tier ts chain)
    (depth : Nat) :
    weight w chain.found + w (.chained chain.tier chain.links.length depth) =
      weight (fun s => v s.operator.kind) (Split.successive tier.operators ts) := by
  rw [h.found_eq,weight_map,h.length_links]
  refine hw.chain chain.tier depth _ fun s hs => ?_
  exact Tier.isArithmetic_of_mem (Split.kind_mem_of_mem_successive hs)

theorem weighs_parseLinks {links : List Link}
    (h : ∀ link ∈ links, (parseExprAt depth link.operand).Weighs w (tokenWeight v link.operand))
    (left : Expr) :
    (parseLinks depth left links).Weighs w (weight (fun l => tokenWeight v l.operand) links) := by
  induction links generalizing left with
  | nil => rw [parseLinks]; exact Traced.weighs_pure w left
  | cons link links ih =>
    rw [parseLinks,weight_cons]
    exact (h link (by simp)).bind fun right _ => ih (fun l hl => h l (by simp [hl])) _

theorem weighs_parseChainAt (hw : Balances w v)
    (h : ∀ part, part.length < ts.length →
      (parseExprAt depth part).Weighs w (tokenWeight v part)) :
    (parseChainAt depth ts).Weighs w (tokenWeight v ts) := by
  rw [parseChainAt_by_chain]
  cases hc : Chain.ofRange ts with
  | error fault => exact Traced.weighs_of_error rfl
  | ok chain =>
    obtain ⟨tier,hchain,-⟩ := Chain.isChain_of_ofRange hc
    have hfirst := h _ (Chain.shorter_of_ofRange hc).1
    have hlinks : ∀ link ∈ chain.links,
        (parseExprAt depth link.operand).Weighs w (tokenWeight v link.operand) := by
      intro link hl
      exact h _ (Chain.length_lt_of_mem_links hc hl)
    have heq : tokenWeight v ts = weight w chain.found +
        (w (.chained chain.tier chain.links.length depth) + (tokenWeight v chain.first +
          weight (fun l => tokenWeight v l.operand) chain.links)) := by
      rw [hchain.tokenWeight_eq,← hw.weight_found hchain depth,Nat.add_assoc]
    rw [heq]
    exact (Traced.weighs_emitAll w _).bind fun _ _ => (Traced.weighs_emit w _).bind fun _ _ =>
      hfirst.bind fun first _ => weighs_parseLinks hlinks first

theorem weighs_group (hw : Balances w v) {inner : List Token} (hf : Form.ofRange ts = .group inner)
    (h : (parseExprAt (depth+1) inner).Weighs w (tokenWeight v inner)) :
    Traced.Weighs w (do
      Traced.emit (.unwrapped depth)
      parseExprAt (depth+1) inner) (tokenWeight v ts) := by
  obtain ⟨hg,rfl⟩ := Form.isGroup_of_ofRange hf
  obtain ⟨l,r,hts,hl,hr,-⟩ := exists_enclosed_of_isGroup hg
  by_cases hd : depth < nestingLimit
  · have heq : tokenWeight v ts = w (.unwrapped depth) + tokenWeight v (interior ts) := by
      rw [hts,interior_enclosed,hw.group depth hd]
      simp only [tokenWeight,weight_cons,weight_append,weight_nil,hl,hr]
      omega
    rw [heq]
    exact (Traced.weighs_emit w _).bind fun _ _ => h
  · have hdeep : (parseExprAt (depth+1) (interior ts)).result =
        .error ⟨.nesting nestingLimit,interior ts⟩ := result_parseExprAt_of_deep (by omega)
    refine Traced.weighs_of_error (Eq.trans ?_ hdeep)
    rw [Traced.result_bind,Traced.result_emit]
    rfl

/-- The events of a successful reading weigh what the tokens do. -/
theorem weighs_parseExprAt (hw : Balances w v) (depth : Nat) (ts : List Token) :
    (parseExprAt depth ts).Weighs w (tokenWeight v ts) := by
  induction hn : ts.length using Nat.strongRecOn generalizing depth ts with
  | ind n ih =>
    subst hn
    rcases Nat.lt_or_ge nestingLimit depth with hd | hd
    · rw [parseExprAt_of_deep hd]
      exact Traced.weighs_of_error rfl
    · rw [parseExprAt_by_form hd]
      cases hf : Form.ofRange ts with
      | literal t =>
        obtain ⟨rfl,ht⟩ := Form.eq_of_ofRange_literal hf
        have hv : tokenWeight v [t] = 0 := by simp [tokenWeight,hw.literal _ ht]
        rw [hv]
        exact Traced.weighs_ofResult w _
      | group inner =>
        exact hw.weighs_group hf (ih _ (Form.length_lt_of_ofRange hf) (depth+1) inner rfl)
      | operation => exact hw.weighs_parseChainAt fun part hp => ih _ hp depth part rfl
      | missing => exact Traced.weighs_of_error rfl
      | formless => exact Traced.weighs_of_error rfl

theorem countP_eq {p : Event → Bool} {q : TokenKind → Bool} {e : Expr}
    (hb : Balances (fun a => (p a).toNat) fun k => (q k).toNat)
    (h : (parseExpr ts).result = .ok e) :
    (parseExpr ts).events.countP p = ts.countP fun t => q t.kind := by
  have hw : weight (fun a => (p a).toNat) (parseExpr ts).events =
      tokenWeight (fun k => (q k).toNat) ts := hb.weighs_parseExprAt 0 ts e h
  rw [← weight_toNat,hw,tokenWeight,← weight_toNat]

end Balances

namespace Event

def isFound : Event → Bool
  | operatorFound _ _ => true
  | _ => false

def operator? : Event → Option BinaryOperator
  | operatorFound kind _ => BinaryOperator.ofKind? kind
  | _ => none

def linked : Event → Nat
  | chained _ operators _ => operators
  | _ => 0

def isUnwrapped : Event → Bool
  | unwrapped _ => true
  | _ => false

/-- Whether a group was unwrapped that is inside as many others as the limit allows. -/
def isUnwrappedAtLimit : Event → Bool
  | unwrapped depth => nestingLimit ≤ depth
  | _ => false

end Event

theorem TokenKind.not_isArithmetic_of_isLiteral {k : TokenKind} (h : k.isLiteral = true) :
    k.isArithmetic = false := by cases k <;> simp_all [isArithmetic,isLiteral]

theorem TokenKind.not_isArithmetic_of_isParenthesis {k : TokenKind}
    (h : k.isParenthesis = true) : k.isArithmetic = false := by
  cases k <;> simp_all [isArithmetic,isParenthesis]

theorem balances_isFound :
    Balances (fun a => a.isFound.toNat) fun k => k.isArithmetic.toNat where
  literal k hk := by rw [TokenKind.not_isArithmetic_of_isLiteral hk]; rfl
  chain tier depth splits hs := by
    have hfound : weight (fun s : Split => s.found.isFound.toNat) splits = 1 * splits.length :=
      weight_of_forall fun _ _ => rfl
    rw [hfound,weight_of_forall fun s hm => congrArg Bool.toNat (hs s hm)]
    rfl
  group depth hd := rfl

theorem balances_linked : Balances Event.linked fun k => k.isArithmetic.toNat where
  literal k hk := by rw [TokenKind.not_isArithmetic_of_isLiteral hk]; rfl
  chain tier depth splits hs := by
    have hfound : weight (fun s : Split => s.found.linked) splits = 0 * splits.length :=
      weight_of_forall fun _ _ => rfl
    rw [hfound,weight_of_forall fun s hm => congrArg Bool.toNat (hs s hm)]
    simp [Event.linked]
  group depth hd := rfl

theorem balances_operator (op : BinaryOperator) :
    Balances (fun a => (a.operator? == some op).toNat)
      fun k => (BinaryOperator.ofKind? k == some op).toNat where
  literal k hk := by cases k <;> simp_all [TokenKind.isLiteral,BinaryOperator.ofKind?]
  chain tier depth splits _ := by simp [Event.operator?,Split.found]
  group depth hd := rfl

theorem balances_isUnwrapped {side : TokenKind} (hs : side.isParenthesis = true) :
    Balances (fun a => a.isUnwrapped.toNat) fun k => (decide (k = side)).toNat where
  literal k hk := by
    have hn : k ≠ side := by
      rintro rfl
      cases k <;> simp_all [TokenKind.isLiteral,TokenKind.isParenthesis]
    simp [hn]
  chain tier depth splits hsplits := by
    have hn : ∀ s ∈ splits, (decide (s.operator.kind = side)).toNat = 0 := by
      intro s hm
      have hne : s.operator.kind ≠ side := by
        rintro rfl
        have ha := hsplits s hm
        rw [TokenKind.not_isArithmetic_of_isParenthesis hs] at ha
        cases ha
      simp [hne]
    have hfound : weight (fun s : Split => s.found.isUnwrapped.toNat) splits = 0 * splits.length :=
      weight_of_forall fun _ _ => rfl
    rw [hfound,weight_of_forall hn]
    rfl
  group depth hd := by
    cases side <;> simp_all [TokenKind.isParenthesis,Event.isUnwrapped]

/-- A group at the limit has no reading that succeeds, so no token answers for its event. -/
theorem balances_isUnwrappedAtLimit :
    Balances (fun a => a.isUnwrappedAtLimit.toNat) fun _ => false.toNat where
  literal k hk := rfl
  chain tier depth splits _ := by simp [Event.isUnwrappedAtLimit,Split.found]
  group depth hd := by simpa [Event.isUnwrappedAtLimit] using hd

def Expr.operators : Expr → List BinaryOperator
  | number _ | identifier _ => []
  | binary op l r => l.operators ++ op :: r.operators

def operatorsOf (ts : List Token) : List BinaryOperator :=
  ts.filterMap fun t => BinaryOperator.ofKind? t.kind

theorem length_operatorsOf (ts : List Token) :
    (operatorsOf ts).length = ts.countP fun t => t.kind.isArithmetic := by
  simp only [operatorsOf,List.length_filterMap_eq_countP,BinaryOperator.isSome_ofKind?]

theorem operatorsOf_operator {t : Token} {op : BinaryOperator} (h : t.kind = op.kind)
    (ls rs : List Token) :
    operatorsOf (ls ++ t :: rs) = operatorsOf ls ++ op :: operatorsOf rs := by
  simp [operatorsOf,h]

theorem operatorsOf_enclosed {l r : Token} (hl : l.kind = .lparen) (hr : r.kind = .rparen)
    (inner : List Token) : operatorsOf (l :: (inner ++ [r])) = operatorsOf inner := by
  simp [operatorsOf,hl,hr,BinaryOperator.ofKind?]

theorem Derives.operators_eq {level : Level} {e : Expr} (h : Derives Denotes level ts e) :
    operatorsOf ts = e.operators := by
  induction h with
  | ofProduct _ ih => exact ih
  | ofFactor _ ih => exact ih
  | sum _ ht _ _ hl hr => rw [operatorsOf_operator ht,hl,hr]; rfl
  | product _ ht _ _ hl hr => rw [operatorsOf_operator ht,hl,hr]; rfl
  | literal _ hd =>
    cases hd with
    | number hk _ => simp [operatorsOf,hk,BinaryOperator.ofKind?,Expr.operators]
    | identifier hk => simp [operatorsOf,hk,BinaryOperator.ofKind?,Expr.operators]
  | group hl hr _ ih => rw [operatorsOf_enclosed hl hr,ih]

section Accounts

variable {e : Expr}

theorem operators_of_parseExpr (h : (parseExpr ts).result = .ok e) :
    operatorsOf ts = e.operators := by
  obtain ⟨hd,-⟩ := result_parseExprAt_eq_ok_iff.1 h
  exact (derives_readable_iff.1 hd).1.operators_eq

theorem perm_found (h : (parseExpr ts).result = .ok e) :
    ((parseExpr ts).events.filterMap Event.operator?).Perm (operatorsOf ts) := by
  rw [List.perm_iff_count]
  intro op
  rw [operatorsOf,List.count_filterMap,List.count_filterMap]
  exact (balances_operator op).countP_eq h

theorem not_unwrapped_at_limit (h : (parseExpr ts).result = .ok e) {depth : Nat}
    (hm : .unwrapped depth ∈ (parseExpr ts).events) : depth < nestingLimit := by
  have hz : (parseExpr ts).events.countP Event.isUnwrappedAtLimit = 0 :=
    (balances_isUnwrappedAtLimit.countP_eq h).trans (by simp)
  simpa [Event.isUnwrappedAtLimit] using List.countP_eq_zero.1 hz _ hm

/-- The events of a successful reading account for its tree and its tokens: an operator found for
each binary node and for each operator token, chains with as many operators together, and a group
unwrapped, at a depth of at most 255, for each opening and for each closing parenthesis. -/
theorem trace_accounts_for_tree (h : (parseExpr ts).result = .ok e) :
    (parseExpr ts).events.countP Event.isFound = e.operators.length ∧
    (ts.countP fun t => t.kind.isArithmetic) = e.operators.length ∧
    weight Event.linked (parseExpr ts).events = e.operators.length ∧
    ((parseExpr ts).events.filterMap Event.operator?).Perm e.operators ∧
    (parseExpr ts).events.countP Event.isUnwrapped = (ts.countP fun t => t.kind = .lparen) ∧
    (parseExpr ts).events.countP Event.isUnwrapped = (ts.countP fun t => t.kind = .rparen) ∧
    ∀ depth, .unwrapped depth ∈ (parseExpr ts).events → depth ≤ 255 := by
  have ho := operators_of_parseExpr h
  have hc : (ts.countP fun t => t.kind.isArithmetic) = e.operators.length := by
    rw [← ho,length_operatorsOf]
  have hlinked : weight Event.linked (parseExpr ts).events =
      tokenWeight (fun k => k.isArithmetic.toNat) ts := balances_linked.weighs_parseExprAt 0 ts e h
  rw [tokenWeight,weight_toNat fun t : Token => t.kind.isArithmetic] at hlinked
  refine ⟨(balances_isFound.countP_eq h).trans hc,hc,hlinked.trans hc,ho ▸ perm_found h,
    (balances_isUnwrapped rfl).countP_eq h,(balances_isUnwrapped rfl).countP_eq h,?_⟩
  intro depth hm
  have hd := not_unwrapped_at_limit h hm
  simp only [nestingLimit] at hd
  omega

/-- The product is cut, then the group is unwrapped and the difference cut, each of them once. -/
theorem trace_accounts_for_tree_group :
    (parseExpr [⟨.ident,"a"⟩,⟨.mul,"*"⟩,⟨.lparen,"("⟩,⟨.ident,"b"⟩,⟨.minus,"-"⟩,⟨.ident,"c"⟩,
      ⟨.rparen,")"⟩]).events.countP Event.isFound = 2 ∧
    (parseExpr [⟨.ident,"a"⟩,⟨.mul,"*"⟩,⟨.lparen,"("⟩,⟨.ident,"b"⟩,⟨.minus,"-"⟩,⟨.ident,"c"⟩,
      ⟨.rparen,")"⟩]).events.countP Event.isUnwrapped = 1 := by
  have hd : Derives (fun t e => parsePrimary t = .ok e) .sum ([⟨.ident,"a"⟩] ++ ⟨.mul,"*"⟩ ::
      ⟨.lparen,"("⟩ :: (([⟨.ident,"b"⟩] ++ ⟨.minus,"-"⟩ :: [⟨.ident,"c"⟩]) ++ [⟨.rparen,")"⟩]))
      (.binary .multiply (.identifier "a") (.binary .subtract (.identifier "b")
        (.identifier "c"))) :=
    .ofProduct (.product rfl rfl (.ofFactor (.literal rfl rfl)) (.group rfl rfl
      (.sum rfl rfl (.ofProduct (.ofFactor (.literal rfl rfl))) (.ofFactor (.literal rfl rfl)))))
  have h := (@result_parseExprAt_eq_ok_iff 0 _ _).2 ⟨hd,by decide⟩
  obtain ⟨hfound,-,-,-,hunwrapped,-⟩ := trace_accounts_for_tree h
  exact ⟨hfound,hunwrapped⟩

end Accounts

end LetPrint
