import LetPrint.Range.Group
import Mathlib.Tactic.Common

/-!
Parenthesis depth along a token range. The balance is the depth after the last token, the peak and
the trough are the greatest and the least depth met on the way; all three are additive in the sense
that the second of two ranges counts from where the first one ended.
-/

set_option autoImplicit false

namespace LetPrint

/-- How many more parentheses a range opens than it closes. -/
def balance : List Token → Int
  | [] => 0
  | t :: ts => t.kind.nesting + balance ts

def peak : List Token → Int
  | [] => 0
  | t :: ts => max 0 (t.kind.nesting + peak ts)

def trough : List Token → Int
  | [] => 0
  | t :: ts => min 0 (t.kind.nesting + trough ts)

/-- Every parenthesis of the range has its partner in the range, in the right order. -/
def Closed (ts : List Token) : Prop := balance ts = 0 ∧ 0 ≤ trough ts

@[simp] theorem balance_append (as bs : List Token) :
    balance (as ++ bs) = balance as + balance bs := by
  induction as with
  | nil => simp [balance]
  | cons t as ih => simp [balance,ih,Int.add_assoc]

theorem balance_singleton (t : Token) : balance [t] = t.kind.nesting := by simp [balance]

theorem balance_le_peak (ts : List Token) : balance ts ≤ peak ts := by
  induction ts with
  | nil => exact Int.le_refl 0
  | cons t ts ih => simp only [balance,peak]; omega

theorem trough_le_balance (ts : List Token) : trough ts ≤ balance ts := by
  induction ts with
  | nil => exact Int.le_refl 0
  | cons t ts ih => simp only [balance,trough]; omega

theorem peak_nonneg (ts : List Token) : 0 ≤ peak ts := by
  cases ts with
  | nil => exact Int.le_refl 0
  | cons t ts => simp only [peak]; omega

theorem trough_nonpos (ts : List Token) : trough ts ≤ 0 := by
  cases ts with
  | nil => exact Int.le_refl 0
  | cons t ts => simp only [trough]; omega

theorem peak_append (as bs : List Token) :
    peak (as ++ bs) = max (peak as) (balance as + peak bs) := by
  induction as with
  | nil =>
    have h := peak_nonneg bs
    simp only [List.nil_append,peak,balance]; omega
  | cons t as ih =>
    simp only [List.cons_append,peak,balance,ih]; omega

theorem trough_append (as bs : List Token) :
    trough (as ++ bs) = min (trough as) (balance as + trough bs) := by
  induction as with
  | nil =>
    have h := trough_nonpos bs
    simp only [List.nil_append,trough,balance]; omega
  | cons t as ih =>
    simp only [List.cons_append,trough,balance,ih]; omega

theorem peak_le_iff {ts : List Token} {limit : Int} :
    peak ts ≤ limit ↔ ∀ before, before <+: ts → balance before ≤ limit := by
  refine ⟨?_,?_⟩
  · intro h before hp
    obtain ⟨after,rfl⟩ := hp
    have hb := balance_le_peak before
    rw [peak_append] at h
    omega
  · intro h
    induction ts generalizing limit with
    | nil => exact h [] (List.nil_prefix)
    | cons t ts ih =>
      have h0 := h [] (List.nil_prefix)
      have ht : peak ts ≤ limit - t.kind.nesting := by
        apply ih
        intro before hb
        have hc := h (t :: before) (by simpa using hb)
        simp only [balance] at hc; omega
      simp only [peak,balance] at h0 ⊢; omega

theorem le_trough_iff {ts : List Token} {limit : Int} :
    limit ≤ trough ts ↔ ∀ before, before <+: ts → limit ≤ balance before := by
  refine ⟨?_,?_⟩
  · intro h before hp
    obtain ⟨after,rfl⟩ := hp
    have hb := trough_le_balance before
    rw [trough_append] at h
    omega
  · intro h
    induction ts generalizing limit with
    | nil => exact h [] (List.nil_prefix)
    | cons t ts ih =>
      have h0 := h [] (List.nil_prefix)
      have ht : limit - t.kind.nesting ≤ trough ts := by
        apply ih
        intro before hb
        have hc := h (t :: before) (by simpa using hb)
        simp only [balance] at hc; omega
      simp only [trough,balance] at h0 ⊢; omega

theorem TokenKind.neg_one_le_nesting (k : TokenKind) : -1 ≤ k.nesting := by cases k <;> decide

theorem TokenKind.nesting_of_not_isParenthesis {k : TokenKind} (h : k.isParenthesis = false) :
    k.nesting = 0 := by cases k <;> simp_all [isParenthesis,nesting]

namespace Closed

theorem singleton {t : Token} (h : t.kind.isParenthesis = false) : Closed [t] := by
  cases hk : t.kind <;> simp_all [Closed,balance,trough,TokenKind.isParenthesis,TokenKind.nesting]

theorem append {as bs : List Token} (ha : Closed as) (hb : Closed bs) : Closed (as ++ bs) := by
  obtain ⟨ha,ta⟩ := ha
  obtain ⟨hb,tb⟩ := hb
  constructor
  · rw [balance_append]; omega
  · rw [trough_append]; omega

theorem around {as bs : List Token} {t : Token} (ha : Closed as)
    (ht : t.kind.isParenthesis = false) (hb : Closed bs) : Closed (as ++ t :: bs) :=
  ha.append ((singleton ht).append hb)

theorem enclosed {l r : Token} {mid : List Token} (hl : l.kind = .lparen) (hr : r.kind = .rparen)
    (h : Closed mid) : Closed (l :: (mid ++ [r])) := by
  obtain ⟨hb,ht⟩ := h
  constructor
  · simp only [balance,balance_append,hb,hl,hr,TokenKind.nesting]; decide
  · simp only [trough,trough_append,hb,hl,hr,TokenKind.nesting]; omega

theorem balance_suffix_nonpos {as bs : List Token} (h : Closed (as ++ bs)) : balance bs ≤ 0 := by
  obtain ⟨hb,ht⟩ := h
  have hn := trough_nonpos bs
  rw [balance_append] at hb
  rw [trough_append] at ht
  omega

end Closed

theorem peak_around {as : List Token} {t : Token} (bs : List Token) (ha : balance as = 0)
    (ht : t.kind.isParenthesis = false) : peak (as ++ t :: bs) = max (peak as) (peak bs) := by
  have hn := t.kind.nesting_of_not_isParenthesis ht
  have hb := peak_nonneg bs
  simp only [peak_append,peak,ha,hn]; omega

theorem peak_enclosed {l r : Token} {mid : List Token} (hl : l.kind = .lparen)
    (hr : r.kind = .rparen) (hb : balance mid = 0) : peak (l :: (mid ++ [r])) = 1 + peak mid := by
  have hm := peak_nonneg mid
  simp only [peak,peak_append,hb,hl,hr,TokenKind.nesting]; omega

/-- Above zero the depth cannot jump over it, so it comes back to zero only at the last token if it
stays above zero until then. -/
theorem closesLast_iff {depth : Int} {mid : List Token} {r : Token} (hd : 0 < depth)
    (hr : r.kind = .rparen) :
    closesLast depth (mid ++ [r]) = true ↔ depth + balance mid = 1 ∧ 0 < depth + trough mid := by
  induction mid generalizing depth with
  | nil =>
    simp only [List.nil_append,closesLast,hr,TokenKind.nesting,balance,trough,beq_iff_eq]; omega
  | cons t mid ih =>
    have hn := t.kind.neg_one_le_nesting
    have ht := trough_nonpos mid
    obtain ⟨u,us,hu⟩ : ∃ u us, mid ++ [r] = u :: us := List.exists_cons_of_ne_nil (by simp)
    simp only [List.cons_append,hu,closesLast,balance,trough]
    rw [← hu,Bool.and_eq_true,bne_iff_ne]
    refine ⟨?_,?_⟩
    · intro h
      obtain ⟨h0,hc⟩ := h
      have h := (ih (by omega)).1 hc
      omega
    · intro h
      obtain ⟨hb,hm⟩ := h
      exact ⟨by omega,(ih (by omega)).2 (by omega)⟩

theorem isGroup_enclosed_iff {l r : Token} {mid : List Token} :
    isGroup (l :: (mid ++ [r])) = true ↔ l.kind = .lparen ∧ r.kind = .rparen ∧ Closed mid := by
  obtain ⟨u,us,hu⟩ : ∃ u us, mid ++ [r] = u :: us := List.exists_cons_of_ne_nil (by simp)
  have hl : (l :: (mid ++ [r])).getLast? = some r := by
    rw [← List.cons_append,List.getLast?_concat]
  simp only [isGroup,hl,List.head?_cons,Option.any_some,Bool.and_eq_true,beq_iff_eq,and_assoc]
  refine and_congr_right fun hlk => and_congr_right fun hrk => ?_
  have hc : closesLast 1 (mid ++ [r]) = true ↔ 1 + balance mid = 1 ∧ 0 < 1 + trough mid :=
    closesLast_iff (by decide) hrk
  simp only [hu,closesLast,hlk,TokenKind.nesting] at hc ⊢
  simp only [Closed]
  rw [Bool.and_eq_true,bne_iff_ne]
  refine ⟨?_,?_⟩
  · intro h
    have h := hc.1 h.2
    omega
  · intro h
    exact ⟨by decide,hc.2 (by omega)⟩

@[simp] theorem interior_enclosed (l r : Token) (mid : List Token) :
    interior (l :: (mid ++ [r])) = mid := by simp [interior]

theorem exists_enclosed_of_isGroup {ts : List Token} (h : isGroup ts = true) :
    ∃ l r, ts = l :: (interior ts ++ [r]) ∧ l.kind = .lparen ∧ r.kind = .rparen ∧
      Closed (interior ts) := by
  have h2 := two_le_length_of_isGroup h
  obtain ⟨l,us,rfl⟩ : ∃ l us, ts = l :: us := List.exists_cons_of_length_pos (by omega)
  have hu : us ≠ [] := by intro hu; subst us; simp at h2
  have hi : interior (l :: us) = us.dropLast := rfl
  obtain ⟨mid,r,rfl⟩ : ∃ mid r, us = mid ++ [r] :=
    ⟨_,_,(List.dropLast_concat_getLast hu).symm⟩
  exact ⟨l,r,by simp,by simpa using isGroup_enclosed_iff.1 h⟩

end LetPrint
