import LetPrint.Parse.Expr
import LetPrint.Proofs.TopLevel

/-!
A chain is read as its outermost operation. Cutting all operators of a tier off a range and folding
the operands from the left gives the tree, or the error, of one cut at the last operator whose sides
are read as expressions of their own: what the cuts leave over is again a chain of the same tier.
-/

set_option autoImplicit false

namespace LetPrint

/-- The rightmost top-level operator of the loosest tier that has one. -/
def Split.outermost? (ts : List Token) : Option Split :=
  Tier.all.findSome? fun tier => rightmost? tier.operators ts

theorem Tier.exists_operator {tier : Tier} {k : TokenKind} (h : k ∈ tier.operators) :
    ∃ op : BinaryOperator, BinaryOperator.ofKind? k = some op ∧ k = op.kind ∧ op.tier = tier := by
  cases tier <;> simp only [operators,List.mem_cons,List.not_mem_nil,or_false] at h
  · rcases h with rfl | rfl
    · exact ⟨.add,rfl,rfl,rfl⟩
    · exact ⟨.subtract,rfl,rfl,rfl⟩
  · rcases h with rfl | rfl
    · exact ⟨.multiply,rfl,rfl,rfl⟩
    · exact ⟨.divide,rfl,rfl,rfl⟩

theorem Tier.not_lt_additive (tier : Tier) : ¬ tier < additive := by cases tier <;> decide

theorem Tier.eq_additive_of_lt {looser tier : Tier} (h : looser < tier) : looser = additive := by
  cases looser with
  | additive => rfl
  | multiplicative => cases tier <;> exact absurd h (by decide)

theorem Tier.isArithmetic_of_mem {tier : Tier} {k : TokenKind} (h : k ∈ tier.operators) :
    k.isArithmetic = true := by
  obtain ⟨op,-,rfl,-⟩ := exists_operator h
  cases op <;> rfl

theorem TokenKind.not_isLiteral_of_isArithmetic {k : TokenKind} (h : k.isArithmetic = true) :
    k.isLiteral = false := by cases k <;> simp_all [isArithmetic,isLiteral]

variable {tier : Tier} {ts : List Token} {s : Split}

theorem Split.outermost?_eq_none_iff :
    outermost? ts = none ↔ ∀ tier : Tier, ¬ HasTopLevel tier.operators ts := by
  simp only [outermost?,Tier.all,List.findSome?_eq_none_iff,rightmost?_eq_none_iff]
  refine ⟨?_,?_⟩
  · intro h tier
    cases tier with
    | additive => exact h _ (by simp)
    | multiplicative => exact h _ (by simp)
  · intro h tier _
    exact h tier

theorem Split.outermost?_eq_some_iff :
    outermost? ts = some s ↔ ∃ tier : Tier, rightmost? tier.operators ts = some s ∧
      ∀ looser : Tier, looser < tier → ¬ HasTopLevel looser.operators ts := by
  simp only [outermost?,Tier.all,List.findSome?_cons,List.findSome?_nil]
  refine ⟨?_,?_⟩
  · intro h
    split at h
    · rename_i s' hs
      cases h
      exact ⟨.additive,hs,fun looser hl => absurd hl (Tier.not_lt_additive looser)⟩
    · rename_i hn
      split at h
      · rename_i s' hs
        cases h
        refine ⟨.multiplicative,hs,?_⟩
        intro looser hl
        rw [Tier.eq_additive_of_lt hl]
        exact rightmost?_eq_none_iff.1 hn
      · cases h
  · intro h
    obtain ⟨tier,hs,hl⟩ := h
    cases tier with
    | additive => simp [hs]
    | multiplicative => simp [hs,rightmost?_eq_none_iff.2 (hl .additive (by decide))]

theorem Split.range_of_outermost? (h : outermost? ts = some s) : s.range = ts := by
  obtain ⟨tier,hs,-⟩ := outermost?_eq_some_iff.1 h
  exact range_of_rightmost? hs

theorem Split.length_of_outermost? (h : outermost? ts = some s) :
    s.left.length + 1 + s.right.length = ts.length := by
  obtain ⟨tier,hs,-⟩ := outermost?_eq_some_iff.1 h
  exact length_of_rightmost? hs

theorem Split.exists_operator_of_outermost? (h : outermost? ts = some s) :
    ∃ op : BinaryOperator, BinaryOperator.ofKind? s.operator.kind = some op ∧
      s.operator.kind = op.kind := by
  obtain ⟨tier,hs,-⟩ := outermost?_eq_some_iff.1 h
  obtain ⟨op,hop,hk,-⟩ := Tier.exists_operator (isTopLevel_of_rightmost? hs).1.kind_mem
  exact ⟨op,hop,hk⟩

theorem Form.ofRange_of_hasTopLevel (h : HasTopLevel tier.operators ts) :
    Form.ofRange ts = .operation := by
  have hg : isGroup ts = false := by
    cases hg : isGroup ts with
    | false => rfl
    | true => exact absurd h (not_hasTopLevel_of_isGroup hg)
  obtain ⟨s,rfl,hs⟩ := h
  have ha := Tier.isArithmetic_of_mem hs.kind_mem
  have hl : loneLiteral? s.range = none := by
    cases hl : loneLiteral? s.range with
    | none => rfl
    | some t =>
      obtain ⟨hr,ht⟩ := loneLiteral?_eq_some_iff.1 hl
      have hm : s.operator ∈ [t] := by rw [← hr]; simp [Split.range]
      rw [List.mem_singleton] at hm
      have hn := TokenKind.not_isLiteral_of_isArithmetic ha
      rw [hm] at hn
      rw [Token.isLiteral,hn] at ht
      cases ht
  have hm : (s.range.any fun t => t.kind.isArithmetic) = true :=
    List.any_eq_true.2 ⟨s.operator,by simp [Split.range],ha⟩
  simp [ofRange,hl,hg,hm]

theorem Form.ofRange_of_outermost (h : Split.outermost? ts = some s) :
    Form.ofRange ts = .operation := by
  obtain ⟨tier,hr,-⟩ := Split.outermost?_eq_some_iff.1 h
  obtain ⟨hw,ht,-⟩ := Split.rightmost?_eq_some_iff.1 hr
  exact ofRange_of_hasTopLevel ⟨s,hw,ht⟩

namespace Chain

def snoc (chain : Chain) (link : Link) : Chain := {chain with links := chain.links ++ [link]}

theorem peel_links (tier : Tier) (rest : List Token) (links : List Link) :
    peel tier rest links =
      (peel tier rest []).map fun chain => {chain with links := chain.links ++ links} := by
  induction hn : rest.length using Nat.strongRecOn generalizing rest links with
  | ind n ih =>
    subst hn
    rw [peel,peel]
    split
    · rfl
    · rename_i s hs
      have hl := Split.length_of_rightmost? hs
      split
      · rfl
      · rename_i op hop
        rw [ih _ (by omega) s.left (⟨op,s.right⟩ :: links) rfl,
          ih _ (by omega) s.left [⟨op,s.right⟩] rfl]
        cases peel tier s.left [] with
        | error fault => rfl
        | ok chain => simp [Except.map]

theorem peel_of_none (h : Split.rightmost? tier.operators ts = none) :
    peel tier ts [] = .ok ⟨tier,ts,[]⟩ := by
  rw [peel]; split
  · rfl
  · simp_all

theorem peel_of_some {op : BinaryOperator} (h : Split.rightmost? tier.operators ts = some s)
    (hop : BinaryOperator.ofKind? s.operator.kind = some op) :
    peel tier ts [] = (peel tier s.left []).map fun chain => chain.snoc ⟨op,s.right⟩ := by
  rw [peel]; split
  · simp_all
  · rename_i s' hs
    obtain rfl : s = s' := Option.some.inj (h.symm.trans hs)
    rw [hop]
    exact peel_links tier s.left [⟨op,s.right⟩]

/-- Peeling never fails: what it cuts at is an operator of its tier. -/
theorem exists_peel (tier : Tier) (ts : List Token) :
    ∃ first links, peel tier ts [] = .ok ⟨tier,first,links⟩ := by
  induction hn : ts.length using Nat.strongRecOn generalizing ts with
  | ind n ih =>
    subst hn
    cases h : Split.rightmost? tier.operators ts with
    | none => exact ⟨ts,[],peel_of_none h⟩
    | some s =>
      obtain ⟨-,hs,-⟩ := Split.rightmost?_eq_some_iff.1 h
      obtain ⟨op,hop,-⟩ := Tier.exists_operator hs.kind_mem
      have hl := Split.length_of_rightmost? h
      obtain ⟨first,links,hp⟩ := ih _ (by omega) s.left rfl
      exact ⟨first,links ++ [⟨op,s.right⟩],by rw [peel_of_some h hop,hp]; rfl⟩

theorem ofRange_of_peel {chain : Chain} (hp : peel tier ts [] = .ok chain)
    (hn : chain.links ≠ [])
    (hl : ∀ looser : Tier, looser < tier → ¬ HasTopLevel looser.operators ts) :
    ofRange ts = .ok chain := by
  cases tier with
  | additive => simp [ofRange,ofTiers,Tier.all,hp,hn]
  | multiplicative =>
    have h := peel_of_none (Split.rightmost?_eq_none_iff.2 (hl .additive (by decide)))
    simp [ofRange,ofTiers,Tier.all,h,hp,hn]

theorem ofRange_of_none (h : Split.outermost? ts = none) :
    ofRange ts = .error .noTopLevelOperator := by
  have hn := Split.outermost?_eq_none_iff.1 h
  have ha := peel_of_none (Split.rightmost?_eq_none_iff.2 (hn .additive))
  have hm := peel_of_none (Split.rightmost?_eq_none_iff.2 (hn .multiplicative))
  simp [ofRange,ofTiers,Tier.all,ha,hm]

end Chain

variable {depth : Nat}

theorem parseExprAt_of_deep (h : nestingLimit < depth) :
    parseExprAt depth ts = Traced.fail (.nesting nestingLimit) ts := by
  rw [parseExprAt,if_pos h]

theorem parseExprAt_by_form (h : depth ≤ nestingLimit) (ts : List Token) :
    parseExprAt depth ts =
      match Form.ofRange ts with
      | .literal t => Traced.ofResult (parsePrimary t)
      | .group inner => do
        Traced.emit (.unwrapped depth)
        parseExprAt (depth+1) inner
      | .operation => parseChainAt depth ts
      | .missing => Traced.fail (.expression .missingOperand) ts
      | .formless => Traced.fail (.expression .formless) ts := by
  rw [parseExprAt,if_neg (Nat.not_lt.2 h)]
  split
  all_goals rename_i hf; simp only [hf]

theorem parseChainAt_by_chain (depth : Nat) (ts : List Token) :
    parseChainAt depth ts =
      (match Chain.ofRange ts with
      | .error fault => Traced.fail (.expression fault) ts
      | .ok chain => do
        Traced.emitAll chain.found
        Traced.emit (.chained chain.tier chain.links.length depth)
        let first ← parseExprAt depth chain.first
        parseLinks depth first chain.links) := by
  rw [parseChainAt]
  split
  all_goals rename_i hc; simp only [hc]

theorem result_parseExprAt_of_deep (h : nestingLimit < depth) :
    (parseExprAt depth ts).result = .error ⟨.nesting nestingLimit,ts⟩ := by
  rw [parseExprAt_of_deep h,Traced.result_fail]

theorem result_parseExprAt (h : depth ≤ nestingLimit) (ts : List Token) :
    (parseExprAt depth ts).result =
      match Form.ofRange ts with
      | .literal t => parsePrimary t
      | .group inner => (parseExprAt (depth+1) inner).result
      | .operation => (parseChainAt depth ts).result
      | .missing => .error ⟨.expression .missingOperand,ts⟩
      | .formless => .error ⟨.expression .formless,ts⟩ := by
  rw [parseExprAt_by_form h]
  cases Form.ofRange ts with
  | group inner => exact Traced.result_bind _ _
  | _ => rfl

theorem result_parseChainAt_of_error {fault : ExpressionFault}
    (h : Chain.ofRange ts = .error fault) :
    (parseChainAt depth ts).result = .error ⟨.expression fault,ts⟩ := by
  rw [parseChainAt_by_chain,h]
  rfl

theorem result_parseChainAt_of_ok {chain : Chain} (h : Chain.ofRange ts = .ok chain) :
    (parseChainAt depth ts).result = (do
      let first ← (parseExprAt depth chain.first).result
      (parseLinks depth first chain.links).result) := by
  rw [parseChainAt_by_chain,h]
  simp only [Traced.result_bind]; rfl

theorem result_parseLinks_append (left : Expr) (links : List Link) (link : Link) :
    (parseLinks depth left (links ++ [link])).result = (do
      let e ← (parseLinks depth left links).result
      let right ← (parseExprAt depth link.operand).result
      return .binary link.operator e right) := by
  induction links generalizing left with
  | nil =>
    rw [List.nil_append,parseLinks,parseLinks,Traced.result_bind,Traced.result_pure]
    simp only [parseLinks,Traced.result_pure]; rfl
  | cons l links ih =>
    rw [List.cons_append,parseLinks,parseLinks,Traced.result_bind,Traced.result_bind]
    simp only [ih]
    cases (parseExprAt depth l.operand).result <;> rfl

theorem result_parseExprAt_of_peel {chain : Chain} (h : depth ≤ nestingLimit)
    (hp : Chain.peel tier ts [] = .ok chain)
    (hl : ∀ looser : Tier, looser < tier → ¬ HasTopLevel looser.operators ts) :
    (parseExprAt depth ts).result = (do
      let first ← (parseExprAt depth chain.first).result
      (parseLinks depth first chain.links).result) := by
  cases hs : Split.rightmost? tier.operators ts with
  | none =>
    rw [Chain.peel_of_none hs] at hp
    cases hp
    simp only [parseLinks,Traced.result_pure]
    cases (parseExprAt depth ts).result <;> rfl
  | some s =>
    obtain ⟨hr,ht,-⟩ := Split.rightmost?_eq_some_iff.1 hs
    have hn : chain.links ≠ [] := by
      obtain ⟨op,hop,-⟩ := Tier.exists_operator ht.kind_mem
      obtain ⟨first,links,hp'⟩ := Chain.exists_peel tier s.left
      rw [Chain.peel_of_some hs hop,hp'] at hp
      cases hp
      simp [Chain.snoc]
    rw [result_parseExprAt h,Form.ofRange_of_hasTopLevel ⟨s,hr,ht⟩]
    exact result_parseChainAt_of_ok (Chain.ofRange_of_peel hp hn hl)

theorem result_parseChainAt_of_none (h : Split.outermost? ts = none) :
    (parseChainAt depth ts).result = .error ⟨.expression .noTopLevelOperator,ts⟩ :=
  result_parseChainAt_of_error (Chain.ofRange_of_none h)

theorem result_parseChainAt_of_some {op : BinaryOperator} (h : depth ≤ nestingLimit)
    (hs : Split.outermost? ts = some s)
    (hop : BinaryOperator.ofKind? s.operator.kind = some op) :
    (parseChainAt depth ts).result = (do
      let left ← (parseExprAt depth s.left).result
      let right ← (parseExprAt depth s.right).result
      return .binary op left right) := by
  obtain ⟨tier,hr,hl⟩ := Split.outermost?_eq_some_iff.1 hs
  obtain ⟨rfl,ht,-⟩ := Split.rightmost?_eq_some_iff.1 hr
  obtain ⟨first,links,hp⟩ := Chain.exists_peel tier s.left
  have hw : Chain.peel tier s.range [] = .ok (Chain.snoc ⟨tier,first,links⟩ ⟨op,s.right⟩) := by
    rw [Chain.peel_of_some hr hop,hp]; rfl
  -- the remainder on the left has no looser operator either, so it is a chain of the same tier
  have hleft := result_parseExprAt_of_peel h hp
    fun looser hlt hh => hl looser hlt (ht.hasTopLevel_range_iff.2 (.inl hh))
  rw [result_parseChainAt_of_ok (Chain.ofRange_of_peel hw (by simp [Chain.snoc]) hl),hleft,
    bind_assoc]
  simp only [Chain.snoc,result_parseLinks_append]

end LetPrint
