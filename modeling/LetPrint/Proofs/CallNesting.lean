import LetPrint.Proofs.Chains
import LetPrint.Proofs.Completion
import LetPrint.Proofs.Grammar

/-!
How deep the calls of a reading nest. A reading with a budget of nested calls does the same as one
without if the budget covers three calls for each depth of parentheses and one more: an operand of a
sum is no sum, an operand of a product is neither, and the only other call is that inside a group.
So the length of a chain costs nothing, on malformed ranges as well.
-/

set_option autoImplicit false

namespace LetPrint

/-- The expression of a range inside `depth` groups, by at most `budget` calls inside each other.
When the budget runs out there is no expression and no error either. -/
def parseExprWithin : Nat → Nat → List Token → OptionT Traced Expr
  | 0, _, _ => failure
  | budget+1, depth, ts =>
    if nestingLimit < depth then
      liftM (Traced.fail (.nesting nestingLimit) ts : Traced Expr)
    else match Form.ofRange ts with
      | .literal t => liftM (Traced.ofResult (parsePrimary t))
      | .group inner => do
        Traced.emit (.unwrapped depth)
        parseExprWithin budget (depth+1) inner
      | .operation =>
        match Chain.ofRange ts with
        | .error fault => liftM (Traced.fail (.expression fault) ts : Traced Expr)
        | .ok chain => do
          Traced.emitAll chain.found
          Traced.emit (.chained chain.tier chain.links.length depth)
          let first ← parseExprWithin budget depth chain.first
          chain.links.foldlM (fun left link => do
            let right ← parseExprWithin budget depth link.operand
            return .binary link.operator left right) first
      | .missing => liftM (Traced.fail (.expression .missingOperand) ts : Traced Expr)
      | .formless => liftM (Traced.fail (.expression .formless) ts : Traced Expr)

/-- How many calls nest at one depth in reading a range that the level covers: one for a cut at
additive operators, one for a cut at multiplicative ones, and one for what is no chain. -/
def Level.calls : Level → Nat
  | sum => 3
  | product => 2
  | factor => 1

variable {level : Level} {ts : List Token} {chain : Chain} {budget depth : Nat}

theorem exists_covers_operands (h : Chain.ofRange ts = .ok chain) (hc : level.Covers ts) :
    ∃ lower : Level, lower.calls < level.calls ∧ ∀ part ∈ chain.operands, lower.Covers part := by
  obtain ⟨tier,hchain,htop,hlooser⟩ := Chain.isChain_of_ofRange h
  have hm : tier ∈ level.tiers := by
    by_contra hm
    exact hc tier hm htop
  cases tier with
  | additive =>
    refine ⟨.product,by cases level <;> simp_all [Level.tiers,Level.calls],?_⟩
    intro part hp
    exact Level.covers_product_iff.2 (hchain.hasTopLevel_operand hp).1
  | multiplicative =>
    refine ⟨.factor,by cases level <;> simp_all [Level.tiers,Level.calls],?_⟩
    intro part hp tier _
    obtain ⟨hn,hw⟩ := hchain.hasTopLevel_operand hp
    cases tier with
    | additive => exact fun h => hlooser .additive (by decide) (hw _ h)
    | multiplicative => exact hn

theorem completes_parseLinks {read : List Token → OptionT Traced Expr} {links : List Link}
    (h : ∀ link ∈ links, Traced.Completes (read link.operand) (parseExprAt depth link.operand))
    (left : Expr) :
    Traced.Completes (links.foldlM (fun left link => do
      let right ← read link.operand
      return .binary link.operator left right) left) (parseLinks depth left links) := by
  induction links generalizing left with
  | nil => rw [parseLinks]; exact Traced.completes_pure left
  | cons link links ih =>
    rw [List.foldlM_cons,bind_assoc,parseLinks]
    refine (h link (by simp)).bind fun right => ?_
    rw [pure_bind]
    exact ih (fun l hl => h l (by simp [hl])) _

theorem completes_operands {read : List Token → OptionT Traced Expr}
    (h : ∀ part ∈ chain.operands, Traced.Completes (read part) (parseExprAt depth part)) :
    Traced.Completes (do
      let first ← read chain.first
      chain.links.foldlM (fun left link => do
        let right ← read link.operand
        return .binary link.operator left right) first) (do
      let first ← parseExprAt depth chain.first
      parseLinks depth first chain.links) := by
  refine (h _ chain.first_mem_operands).bind fun first => completes_parseLinks ?_ first
  intro link hl
  exact h _ (Chain.operand_mem_operands hl)

theorem completes_of_deep (hd : nestingLimit < depth) (hb : 0 < budget) :
    Traced.Completes (parseExprWithin budget depth ts) (parseExprAt depth ts) := by
  cases budget with
  | zero => omega
  | succ budget =>
    rw [parseExprWithin,if_pos hd,parseExprAt_of_deep hd]
    exact Traced.completes_lift _

/-- Three calls for each depth from here to the limit, one beyond it, and those of the level. -/
theorem completes_parseExprWithin (hd : depth ≤ nestingLimit) (hc : level.Covers ts)
    (hb : 3 * (nestingLimit - depth) + 1 + level.calls ≤ budget) :
    Traced.Completes (parseExprWithin budget depth ts) (parseExprAt depth ts) := by
  induction budget generalizing depth ts level with
  | zero => omega
  | succ budget ih =>
    rw [parseExprWithin,if_neg (Nat.not_lt.2 hd),parseExprAt_by_form hd]
    cases Form.ofRange ts with
    | literal t => exact Traced.completes_lift _
    | missing => exact Traced.completes_lift _
    | formless => exact Traced.completes_lift _
    | group inner =>
      have hl : 0 < level.calls := by cases level <;> decide
      refine (Traced.completes_lift _).bind fun _ => ?_
      rcases Nat.lt_or_ge depth nestingLimit with hlt | hge
      · exact ih hlt (Level.covers_sum inner) (by simp only [Level.calls]; omega)
      · exact completes_of_deep (by omega) (by omega)
    | operation =>
      simp only [parseChainAt_by_chain]
      cases h : Chain.ofRange ts with
      | error fault => exact Traced.completes_lift _
      | ok chain =>
        obtain ⟨lower,hlt,hparts⟩ := exists_covers_operands h hc
        have hpart : ∀ part ∈ chain.operands, Traced.Completes (parseExprWithin budget depth part)
            (parseExprAt depth part) := fun part hp => ih hd (hparts part hp) (by omega)
        refine (Traced.completes_lift _).bind fun _ => (Traced.completes_lift _).bind fun _ => ?_
        exact completes_operands hpart

/-- No reading nests more than 772 calls, three for each of the 257 depths within the limit and one
beyond it: with a budget of so many it gives the same tree or error, and records the same events. -/
theorem parseExprWithin_eq_parseExpr (ts : List Token) :
    (parseExprWithin 772 0 ts).run = some <$> parseExpr ts :=
  completes_parseExprWithin (Nat.zero_le _) (Level.covers_sum ts) (by decide)

/-- A sum of products nests three calls, however many operands it has. -/
example : (parseExprWithin 2 0 [⟨.ident,"a"⟩,⟨.mul,"*"⟩,⟨.ident,"b"⟩,⟨.plus,"+"⟩,
    ⟨.ident,"c"⟩]).run.result = .ok none := by cbv

end LetPrint
