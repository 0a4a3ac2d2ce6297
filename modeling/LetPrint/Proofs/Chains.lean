import LetPrint.Proofs.Peeling
import LetPrint.Proofs.SuccessiveSplits

/-!
What a chain is made of. Its operands are what its range is cut into: none of them has an operator
of the chain's tier at top level, and whatever they have there the range has as well. The operators
recorded as found are those the searches split at, in the same order.
-/

set_option autoImplicit false

namespace LetPrint

/-- A range without an operator of the tier is a chain of one operand; what stands to the right of
the last operator is one more link of the chain that stands to the left of it. -/
inductive IsChain (tier : Tier) : List Token → Chain → Prop where
  | single {ts : List Token} : ¬ HasTopLevel tier.operators ts → IsChain tier ts ⟨tier,ts,[]⟩
  | snoc {s : Split} {op : BinaryOperator} {chain : Chain} :
      s.IsTopLevel tier.operators → ¬ HasTopLevel tier.operators s.right →
      s.operator.kind = op.kind → IsChain tier s.left chain →
      IsChain tier s.range (chain.snoc ⟨op,s.right⟩)

theorem Link.total_append (links links' : List Link) :
    total (links ++ links') = total links + total links' := by
  induction links with
  | nil => simp [total]
  | cons link links ih => simp only [List.cons_append,total,ih]; omega

theorem Link.length_lt_total {links : List Link} {link : Link} (h : link ∈ links) :
    link.operand.length < total links := by
  induction links with
  | nil => cases h
  | cons first links ih =>
    rcases List.mem_cons.1 h with rfl | h
    · simp only [total]; omega
    · have := ih h
      simp only [total]; omega

namespace Chain

variable {tier : Tier} {ts : List Token} {chain : Chain}

theorem length_lt_of_mem_links (h : ofRange ts = .ok chain) {link : Link}
    (hl : link ∈ chain.links) : link.operand.length < ts.length := by
  have ht := total_of_ofRange h
  have hlt := Link.length_lt_total hl
  omega

theorem isChain_of_peel (h : peel tier ts [] = .ok chain) : IsChain tier ts chain := by
  induction hn : ts.length using Nat.strongRecOn generalizing ts chain with
  | ind n ih =>
    subst hn
    cases hs : Split.rightmost? tier.operators ts with
    | none =>
      rw [peel_of_none hs] at h
      cases h
      exact .single (Split.rightmost?_eq_none_iff.1 hs)
    | some s =>
      have hl := Split.length_of_rightmost? hs
      obtain ⟨rfl,ht,hr⟩ := Split.rightmost?_eq_some_iff.1 hs
      obtain ⟨op,hop,hk,-⟩ := Tier.exists_operator ht.kind_mem
      obtain ⟨first,links,hp⟩ := exists_peel tier s.left
      rw [peel_of_some hs hop,hp] at h
      cases h
      exact .snoc ht hr hk (ih _ (by omega) hp rfl)

theorem isChain_of_ofRange (h : ofRange ts = .ok chain) :
    ∃ tier : Tier, IsChain tier ts chain ∧ HasTopLevel tier.operators ts ∧
      ∀ looser : Tier, looser < tier → ¬ HasTopLevel looser.operators ts := by
  cases hs : Split.outermost? ts with
  | none =>
    rw [ofRange_of_none hs] at h
    cases h
  | some s =>
    obtain ⟨tier,hr,hl⟩ := Split.outermost?_eq_some_iff.1 hs
    obtain ⟨hw,ht,-⟩ := Split.rightmost?_eq_some_iff.1 hr
    obtain ⟨op,hop,-⟩ := Tier.exists_operator ht.kind_mem
    obtain ⟨first,links,hp⟩ := exists_peel tier s.left
    have hp : peel tier ts [] = .ok (snoc ⟨tier,first,links⟩ ⟨op,s.right⟩) := by
      rw [peel_of_some hr hop,hp]; rfl
    obtain rfl := Except.ok.inj ((ofRange_of_peel hp (by simp [snoc]) hl).symm.trans h)
    exact ⟨tier,isChain_of_peel hp,⟨s,hw,ht⟩,hl⟩

theorem positions_append (start : Nat) (links : List Link) (link : Link) :
    positions start (links ++ [link]) =
      positions start links ++ [(link.operator,start + Link.total links)] := by
  induction links generalizing start with
  | nil => rfl
  | cons first links ih =>
    have hs : start + 1 + first.operand.length + Link.total links =
        start + (first.operand.length + 1 + Link.total links) := by omega
    simp only [List.cons_append,positions,ih,Link.total,hs]

def operands (chain : Chain) : List (List Token) := chain.first :: chain.links.map Link.operand

theorem first_mem_operands (chain : Chain) : chain.first ∈ chain.operands := List.mem_cons_self

theorem operand_mem_operands {link : Link} (h : link ∈ chain.links) :
    link.operand ∈ chain.operands := List.mem_cons_of_mem _ (List.mem_map_of_mem h)

theorem length_lt_of_mem_operands (h : ofRange ts = .ok chain) {part : List Token}
    (hp : part ∈ chain.operands) : part.length < ts.length := by
  rcases List.mem_cons.1 hp with rfl | hp
  · exact (shorter_of_ofRange h).1
  · obtain ⟨link,hl,rfl⟩ := List.mem_map.1 hp
    exact length_lt_of_mem_links h hl

theorem mem_operands_snoc {link : Link} {part : List Token} :
    part ∈ (chain.snoc link).operands ↔ part ∈ chain.operands ∨ part = link.operand := by
  simp [operands,snoc,or_assoc]

end Chain

theorem IsChain.hasTopLevel_operand {tier : Tier} {ts part : List Token} {chain : Chain}
    (h : IsChain tier ts chain) (hp : part ∈ chain.operands) :
    ¬ HasTopLevel tier.operators part ∧ ∀ kinds, HasTopLevel kinds part → HasTopLevel kinds ts := by
  induction h with
  | single hn =>
    obtain rfl := List.mem_singleton.1 hp
    exact ⟨hn,fun _ h => h⟩
  | snoc hs hr _ _ ih =>
    rcases Chain.mem_operands_snoc.1 hp with hp | rfl
    · obtain ⟨hn,hw⟩ := ih hp
      exact ⟨hn,fun kinds h => hs.hasTopLevel_range_iff.2 (.inl (hw kinds h))⟩
    · exact ⟨hr,fun kinds h => hs.hasTopLevel_range_iff.2 (.inr (.inr h))⟩

section Found

variable {tier : Tier} {ts : List Token} {chain : Chain}

def Split.found (s : Split) : Event := .operatorFound s.operator.kind s.left.length

theorem IsChain.total_eq (h : IsChain tier ts chain) :
    chain.first.length + Link.total chain.links = ts.length := by
  induction h with
  | single _ => rfl
  | snoc _ _ _ _ ih =>
    simp only [Chain.snoc,Link.total_append,Link.total,Split.range,List.length_append,
      List.length_cons]
    omega

/-- What is recorded as found in a range is what each search splits at, the first search first. -/
theorem IsChain.found_eq (h : IsChain tier ts chain) :
    chain.found = (Split.successive tier.operators ts).map Split.found := by
  induction h with
  | single hn => rw [Split.successive_of_none (Split.rightmost?_eq_none_iff.2 hn)]; rfl
  | snoc hs hr hk hc ih =>
    rw [Split.successive_of_some (Split.rightmost?_eq_some_iff.2 ⟨rfl,hs,hr⟩),List.map_cons,← ih,
      Split.found,← hc.total_eq]
    simp [Chain.found,Chain.snoc,Chain.positions_append,hk]

theorem IsChain.length_links (h : IsChain tier ts chain) :
    chain.links.length = (Split.successive tier.operators ts).length := by
  have hl := congrArg List.length h.found_eq
  simpa [Chain.found,Chain.length_positions] using hl

end Found

end LetPrint
