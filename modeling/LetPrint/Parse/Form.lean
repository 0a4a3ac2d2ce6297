import LetPrint.Range.Group

set_option autoImplicit false

namespace LetPrint

inductive Form where
  | literal (t : Token)
  | group (inner : List Token)
  | operation
  | missing
  | formless
  deriving DecidableEq, Repr

def loneLiteral? : List Token → Option Token
  | [t] => if t.isLiteral then some t else none
  | _ => none

theorem loneLiteral?_eq_some_iff {ts : List Token} {t : Token} :
    loneLiteral? ts = some t ↔ ts = [t] ∧ t.isLiteral = true := by
  unfold loneLiteral?; split
  · simp only [List.cons.injEq,and_true]
    constructor
    · intro h; split at h <;> simp_all
    · rintro ⟨rfl,h⟩; simp [h]
  · simp_all

namespace Form

def ofRange (ts : List Token) : Form :=
  match loneLiteral? ts with
  | some t => literal t
  | none =>
    if isGroup ts then group (interior ts)
    else if ts.any fun t => t.kind.isArithmetic then operation
    else if ts.isEmpty then missing
    else formless

theorem isGroup_of_ofRange {ts inner : List Token} (h : ofRange ts = group inner) :
    isGroup ts = true ∧ inner = interior ts := by
  unfold ofRange at h
  split at h
  · cases h
  · split at h
    · cases h; exact ⟨‹_›,rfl⟩
    · split at h
      · cases h
      · split at h <;> cases h

theorem length_lt_of_ofRange {ts inner : List Token} (h : ofRange ts = group inner) :
    inner.length < ts.length := by
  obtain ⟨hg,rfl⟩ := isGroup_of_ofRange h
  exact length_interior_lt hg

end Form

end LetPrint
