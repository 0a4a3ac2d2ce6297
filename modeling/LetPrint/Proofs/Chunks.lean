import LetPrint.Range.Chunk
import Mathlib.Data.List.Basic

set_option autoImplicit false

namespace LetPrint

variable {delimiter : TokenKind} {ts : List Token}

theorem free_or_exists_first (delimiter : TokenKind) (ts : List Token) :
    (∀ t ∈ ts, t.kind ≠ delimiter) ∨ ∃ before t after, ts = before ++ t :: after ∧
      t.kind = delimiter ∧ ∀ u ∈ before, u.kind ≠ delimiter := by
  induction ts with
  | nil => exact .inl (by simp)
  | cons t ts ih =>
    by_cases ht : t.kind = delimiter
    · exact .inr ⟨[],t,ts,rfl,ht,by simp⟩
    · rcases ih with h | ⟨before,u,after,rfl,hu,hb⟩
      · exact .inl (by simpa [ht] using h)
      · exact .inr ⟨t :: before,u,after,rfl,hu,by simpa [ht] using hb⟩

/-- From one delimiter to the next, up to a rest without any. -/
@[elab_as_elim]
theorem induction_on_first (delimiter : TokenKind) {motive : List Token → Prop}
    (free : ∀ ts, (∀ t ∈ ts, t.kind ≠ delimiter) → motive ts)
    (cut : ∀ before t after, (∀ u ∈ before, u.kind ≠ delimiter) → t.kind = delimiter →
      motive after → motive (before ++ t :: after)) (ts : List Token) : motive ts := by
  induction hn : ts.length using Nat.strongRecOn generalizing ts with
  | ind n ih =>
    subst hn
    rcases free_or_exists_first delimiter ts with hf | ⟨before,t,after,rfl,ht,hb⟩
    · exact free ts hf
    · exact cut before t after hb ht (ih after.length (by simp; omega) after rfl)

theorem lastChunk_of_ne_nil (h : ts ≠ []) : lastChunk ts = [ts] := by simp [lastChunk,h]

theorem mem_of_mem_lastChunk {piece : List Token} (h : piece ∈ lastChunk ts) : piece = ts := by
  unfold lastChunk at h; split at h
  · simp at h
  · exact List.mem_singleton.1 h

theorem isInfix_of_mem_cutAt {cuts : Option Nat} {piece : List Token}
    (h : piece ∈ cutAt delimiter cuts ts) : piece <:+: ts := by
  induction hn : ts.length using Nat.strongRecOn generalizing ts cuts with
  | ind n ih =>
    subst hn
    by_cases hc : cuts = some 0
    · rw [hc,cutAt_of_no_cuts] at h
      obtain rfl := mem_of_mem_lastChunk h
      exact List.infix_rfl
    · rcases free_or_exists_first delimiter ts with hf | ⟨before,t,after,rfl,ht,hb⟩
      · rw [cutAt_of_free hf] at h
        obtain rfl := mem_of_mem_lastChunk h
        exact List.infix_rfl
      · rw [cutAt_cons_delimiter hc hb ht] at h
        rcases List.mem_cons.1 h with rfl | h
        · exact (List.prefix_append _ _).isInfix
        · have hi := ih after.length (by simp; omega) h rfl
          exact hi.trans ((List.suffix_cons t after).trans (List.suffix_append _ _)).isInfix

theorem subset_of_mem_cutAt {cuts : Option Nat} {piece : List Token}
    (h : piece ∈ cutAt delimiter cuts ts) : piece ⊆ ts := (isInfix_of_mem_cutAt h).subset

theorem chunks_ne_nil (h : ts ≠ []) (limit : Option Nat) : chunks delimiter limit ts ≠ [] := by
  unfold chunks
  by_cases hc : limit.map (fun n => n-1) = some 0
  · rw [hc,cutAt_of_no_cuts,lastChunk_of_ne_nil h]
    simp
  · rcases free_or_exists_first delimiter ts with hf | ⟨before,t,after,rfl,ht,hb⟩
    · rw [cutAt_of_free hf,lastChunk_of_ne_nil h]
      simp
    · rw [cutAt_cons_delimiter hc hb ht]
      simp

theorem chunks_two_of_first {before after : List Token} {t : Token}
    (hb : ∀ u ∈ before, u.kind ≠ delimiter) (ht : t.kind = delimiter) :
    chunks delimiter (some 2) (before ++ t :: after) = before :: lastChunk after := by
  rw [chunks,cutAt_cons_delimiter (by simp) hb ht]
  exact congrArg _ (cutAt_of_no_cuts delimiter after)

theorem chunks_two_eq_iff {before after : List Token} :
    chunks delimiter (some 2) ts = [before,after] ↔
      after ≠ [] ∧ (∀ u ∈ before, u.kind ≠ delimiter) ∧
        ∃ t, t.kind = delimiter ∧ ts = before ++ t :: after := by
  refine ⟨?_,?_⟩
  · intro h
    rcases free_or_exists_first delimiter ts with hf | ⟨start,t,rest,rfl,ht,hb⟩
    · rw [chunks,cutAt_of_free hf,lastChunk] at h
      split at h <;> simp at h
    · rw [chunks_two_of_first hb ht] at h
      by_cases hr : rest = []
      · simp [lastChunk,hr] at h
      · rw [lastChunk_of_ne_nil hr] at h
        cases h
        exact ⟨hr,hb,t,ht,rfl⟩
  · intro h
    obtain ⟨ha,hb,t,ht,rfl⟩ := h
    rw [chunks_two_of_first hb ht,lastChunk_of_ne_nil ha]

theorem chunks_flatMap {α : Type} {f : α → List Token} {t : Token} {as : List α}
    (hf : ∀ a ∈ as, ∀ u ∈ f a, u.kind ≠ delimiter) (ht : t.kind = delimiter) :
    chunks delimiter none (as.flatMap fun a => f a ++ [t]) = as.map f := by
  induction as with
  | nil => exact cutAt_of_free (by simp)
  | cons a as ih =>
    have hs : (a :: as).flatMap (fun a => f a ++ [t]) =
        f a ++ t :: as.flatMap fun a => f a ++ [t] := by simp
    have hm := ih fun b hb => hf b (by simp [hb])
    rw [chunks] at hm ⊢
    rw [hs,cutAt_cons_delimiter (by simp) (hf a (by simp)) ht]
    exact congrArg _ hm

section Unbounded

theorem chunks_none_of_free (h : ∀ t ∈ ts, t.kind ≠ delimiter) :
    chunks delimiter none ts = lastChunk ts := cutAt_of_free h

theorem chunks_none_of_first {before after : List Token} {t : Token}
    (hb : ∀ u ∈ before, u.kind ≠ delimiter) (ht : t.kind = delimiter) :
    chunks delimiter none (before ++ t :: after) = before :: chunks delimiter none after :=
  cutAt_cons_delimiter (by simp) hb ht

@[simp] theorem chunks_none_nil (delimiter : TokenKind) : chunks delimiter none [] = [] :=
  chunks_none_of_free (by simp)

def endsIn (delimiter : TokenKind) (ts : List Token) : Bool :=
  ts.getLast?.any fun t => t.kind == delimiter

@[simp] theorem endsIn_concat (ts : List Token) (t : Token) :
    endsIn delimiter (ts ++ [t]) = (t.kind == delimiter) := by simp [endsIn]

theorem endsIn_append_cons (before : List Token) (t : Token) {after : List Token}
    (h : after ≠ []) : endsIn delimiter (before ++ t :: after) = endsIn delimiter after := by
  rw [endsIn,List.append_cons,List.getLast?_append_of_ne_nil _ h,endsIn]

theorem not_endsIn_of_free (h : ∀ t ∈ ts, t.kind ≠ delimiter) : endsIn delimiter ts = false := by
  rcases List.eq_nil_or_concat' ts with rfl | ⟨front,t,rfl⟩
  · rfl
  · rw [endsIn_concat,beq_eq_false_iff_ne]
    exact h t (by simp)

theorem chunks_none_append {as : List Token} (bs : List Token)
    (h : as = [] ∨ endsIn delimiter as = true) :
    chunks delimiter none (as ++ bs) = chunks delimiter none as ++ chunks delimiter none bs := by
  induction as using induction_on_first delimiter with
  | free as hf =>
    have hn : as = [] := h.resolve_right (by simp [not_endsIn_of_free hf])
    simp [hn]
  | cut before t after hb ht ih =>
    have ha : after = [] ∨ endsIn delimiter after = true := by
      rcases h with h | h
      · simp at h
      · by_cases hn : after = []
        · exact .inl hn
        · exact .inr (by rwa [endsIn_append_cons before t hn] at h)
    rw [List.append_assoc,List.cons_append,chunks_none_of_first hb ht,chunks_none_of_first hb ht,
      ih ha,List.cons_append]

theorem chunks_none_concat {t : Token} (ht : t.kind = delimiter) (hn : ts ≠ [])
    (h : endsIn delimiter ts = false) :
    chunks delimiter none (ts ++ [t]) = chunks delimiter none ts := by
  induction ts using induction_on_first delimiter with
  | free ts hf =>
    rw [chunks_none_of_first hf ht,chunks_none_of_free hf,lastChunk_of_ne_nil hn,chunks_none_nil]
  | cut before u after hb hu ih =>
    have ha : after ≠ [] := by
      intro ha
      simp [ha,hu] at h
    rw [endsIn_append_cons before u ha] at h
    rw [List.append_assoc,List.cons_append,chunks_none_of_first hb hu,chunks_none_of_first hb hu,
      ih ha h]

theorem length_chunks_none (hn : ts ≠ []) :
    (chunks delimiter none ts).length =
      ts.countP (fun t => t.kind == delimiter) + if endsIn delimiter ts then 0 else 1 := by
  induction ts using induction_on_first delimiter with
  | free ts hf =>
    have hc : ts.countP (fun t => t.kind == delimiter) = 0 := by simpa using hf
    simp [chunks_none_of_free hf,lastChunk_of_ne_nil hn,hc,not_endsIn_of_free hf]
  | cut before t after hb ht ih =>
    have hc : before.countP (fun t => t.kind == delimiter) = 0 := by simpa using hb
    rw [chunks_none_of_first hb ht,List.countP_append,hc,List.countP_cons,List.length_cons]
    by_cases ha : after = []
    · simp [ha,ht]
    · rw [ih ha,endsIn_append_cons before t ha]
      simp only [ht,beq_self_eq_true,if_true]
      omega

/-- The range is the pieces in order with a delimiter between any two of them, and with one
delimiter or none after the last. -/
inductive Delimited (delimiter : TokenKind) : List (List Token) → List Token → Prop where
  | last {piece : List Token} : Delimited delimiter [piece] piece
  | closed {piece : List Token} {t : Token} :
      t.kind = delimiter → Delimited delimiter [piece] (piece ++ [t])
  | more {piece ts : List Token} {t : Token} {pieces : List (List Token)} :
      t.kind = delimiter → Delimited delimiter pieces ts →
      Delimited delimiter (piece :: pieces) (piece ++ t :: ts)

theorem delimited_chunks (hn : ts ≠ []) : Delimited delimiter (chunks delimiter none ts) ts := by
  induction ts using induction_on_first delimiter with
  | free ts hf =>
    rw [chunks_none_of_free hf,lastChunk_of_ne_nil hn]
    exact .last
  | cut before t after hb ht ih =>
    rw [chunks_none_of_first hb ht]
    by_cases ha : after = []
    · rw [ha,chunks_none_nil]
      exact .closed ht
    · exact .more ht (ih ha)

theorem free_of_mem_chunks_none {piece : List Token} (h : piece ∈ chunks delimiter none ts) :
    ∀ t ∈ piece, t.kind ≠ delimiter := by
  induction ts using induction_on_first delimiter with
  | free ts hf =>
    rw [chunks_none_of_free hf] at h
    rwa [mem_of_mem_lastChunk h]
  | cut before t after hb ht ih =>
    rw [chunks_none_of_first hb ht] at h
    rcases List.mem_cons.1 h with rfl | h
    · exact hb
    · exact ih h

theorem Delimited.chunks_none {pieces : List (List Token)} (h : Delimited delimiter pieces ts)
    (hf : ∀ piece ∈ pieces, ∀ t ∈ piece, t.kind ≠ delimiter) (hn : [] ∉ pieces) :
    ts ≠ [] ∧ chunks delimiter none ts = pieces := by
  induction h with
  | @last piece =>
    have hp : piece ≠ [] := by simpa [eq_comm] using hn
    exact ⟨hp,by rw [chunks_none_of_free (hf piece (by simp)),lastChunk_of_ne_nil hp]⟩
  | @closed piece t ht =>
    refine ⟨by simp,?_⟩
    rw [chunks_none_of_first (hf piece (by simp)) ht,chunks_none_nil]
  | @more piece ts t pieces ht _ ih =>
    obtain ⟨-,hc⟩ := ih (fun p hp => hf p (by simp [hp])) fun hp => hn (by simp [hp])
    refine ⟨by simp,?_⟩
    rw [chunks_none_of_first (hf piece (by simp)) ht,hc]

end Unbounded

end LetPrint
