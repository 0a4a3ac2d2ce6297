import LetPrint.Proofs.Chunks

/-!
What cutting a range keeps. The chunks are the pieces before the first delimiters, as many as the
bound allows, and whatever is left after them. Only these delimiters are gone: with them put back
the chunks are the range again.
-/

set_option autoImplicit false

namespace LetPrint

structure Cut where
  piece : List Token
  mark : Token
  deriving DecidableEq, Repr

def Cut.tokens (c : Cut) : List Token := c.piece ++ [c.mark]

/-- The range is cut at its first delimiters, and `rest` is left after the last of them. -/
structure CutsOff (delimiter : TokenKind) (ts : List Token) (cuts : List Cut)
    (rest : List Token) : Prop where
  range : cuts.flatMap Cut.tokens ++ rest = ts
  mark_kind : ∀ c ∈ cuts, c.mark.kind = delimiter
  piece_free : ∀ c ∈ cuts, ∀ t ∈ c.piece, t.kind ≠ delimiter

/-- How many cuts are made of those allowed, in a range with so many delimiters. -/
def cutCount : Option Nat → Nat → Nat
  | none, delimiters => delimiters
  | some allowed, delimiters => min delimiters allowed

theorem cutCount_succ {allowed : Option Nat} (h : allowed ≠ some 0) (n : Nat) :
    cutCount allowed (n+1) = cutCount (allowed.map fun m => m-1) n + 1 := by
  cases allowed with
  | none => rfl
  | some m =>
    have hm : m ≠ 0 := by rintro rfl; exact h rfl
    simp only [cutCount,Option.map_some]; omega

def delimiterCount (delimiter : TokenKind) (ts : List Token) : Nat :=
  ts.countP fun t => t.kind = delimiter

variable {delimiter : TokenKind} {ts rest : List Token} {cuts : List Cut}

theorem delimiterCount_of_free (h : ∀ t ∈ ts, t.kind ≠ delimiter) :
    delimiterCount delimiter ts = 0 := by simpa [delimiterCount] using h

theorem delimiterCount_of_first {before after : List Token} {t : Token}
    (hb : ∀ u ∈ before, u.kind ≠ delimiter) (ht : t.kind = delimiter) :
    delimiterCount delimiter (before ++ t :: after) = delimiterCount delimiter after + 1 := by
  have h := delimiterCount_of_free hb
  simp only [delimiterCount] at h ⊢
  simp [h,ht]

namespace CutsOff

theorem nil (delimiter : TokenKind) (ts : List Token) : CutsOff delimiter ts [] ts :=
  ⟨rfl,by simp,by simp⟩

theorem cons {before : List Token} {t : Token} (hb : ∀ u ∈ before, u.kind ≠ delimiter)
    (ht : t.kind = delimiter) (h : CutsOff delimiter ts cuts rest) :
    CutsOff delimiter (before ++ t :: ts) (⟨before,t⟩ :: cuts) rest := by
  obtain ⟨hr,hm,hf⟩ := h
  exact ⟨by simp [Cut.tokens,hr],List.forall_mem_cons.2 ⟨ht,hm⟩,List.forall_mem_cons.2 ⟨hb,hf⟩⟩

theorem forall_mem_pieces (h : CutsOff delimiter ts cuts rest) :
    ∀ t ∈ (cuts.map Cut.piece).flatten, t.kind ≠ delimiter := by
  intro t ht
  obtain ⟨piece,hp,ht⟩ := List.mem_flatten.1 ht
  obtain ⟨c,hc,rfl⟩ := List.mem_map.1 hp
  exact h.piece_free c hc t ht

theorem filter_tokens (h : CutsOff delimiter ts cuts rest) :
    (cuts.flatMap Cut.tokens).filter (fun t => t.kind = delimiter) = cuts.map Cut.mark ∧
    (cuts.flatMap Cut.tokens).filter (fun t => t.kind ≠ delimiter) =
      (cuts.map Cut.piece).flatten := by
  obtain ⟨-,hm,hf⟩ := h
  induction cuts with
  | nil => exact ⟨rfl,rfl⟩
  | cons c cuts ih =>
    obtain ⟨hc,hm⟩ := List.forall_mem_cons.1 hm
    obtain ⟨hp,hf⟩ := List.forall_mem_cons.1 hf
    obtain ⟨hmarks,hpieces⟩ := ih hm hf
    have hnone : c.piece.filter (fun t => t.kind = delimiter) = [] := by simpa using hp
    have hall : c.piece.filter (fun t => t.kind ≠ delimiter) = c.piece :=
      List.filter_eq_self.2 (by simpa using hp)
    simp only [List.flatMap_cons,List.filter_append,hmarks,hpieces,Cut.tokens,hnone,hall]
    simp [hc]

theorem filter_kept (h : CutsOff delimiter ts cuts rest) :
    ((cuts.map Cut.piece).flatten ++ rest).filter (fun t => t.kind ≠ delimiter) =
      ts.filter (fun t => t.kind ≠ delimiter) ∧
    ((cuts.map Cut.piece).flatten ++ rest).filter (fun t => t.kind = delimiter) =
      (ts.filter fun t => t.kind = delimiter).drop cuts.length := by
  obtain ⟨hmarks,hpieces⟩ := h.filter_tokens
  have hfree := h.forall_mem_pieces
  have hnone : (cuts.map Cut.piece).flatten.filter (fun t => t.kind = delimiter) = [] :=
    List.filter_eq_nil_iff.2 (by simpa only [decide_eq_true_eq] using hfree)
  have hall : (cuts.map Cut.piece).flatten.filter (fun t => t.kind ≠ delimiter) =
      (cuts.map Cut.piece).flatten :=
    List.filter_eq_self.2 (by simpa only [decide_eq_true_eq] using hfree)
  simp only [← h.range,List.filter_append,hmarks,hpieces,hnone,hall,List.nil_append]
  exact ⟨trivial,(List.drop_left' (List.length_map _)).symm⟩

theorem delimiterCount_eq (h : CutsOff delimiter ts cuts rest) :
    delimiterCount delimiter ts = cuts.length + delimiterCount delimiter rest := by
  have hmarks := congrArg List.length h.filter_tokens.1
  rw [List.length_map] at hmarks
  rw [← h.range,delimiterCount,List.countP_append,List.countP_eq_length_filter,hmarks,
    delimiterCount]

theorem exists_limit {limit : Option Nat} (h : CutsOff delimiter ts cuts rest)
    (hlen : cuts.length = cutCount (limit.map fun m => m-1) (delimiterCount delimiter ts))
    (hr : ∃ t ∈ rest, t.kind = delimiter) : ∃ m ∈ limit, cuts.length + 1 = max m 1 := by
  have hleft : 0 < delimiterCount delimiter rest :=
    List.countP_pos_iff.2 (by simpa only [decide_eq_true_eq] using hr)
  have htotal := h.delimiterCount_eq
  cases limit with
  | none =>
    simp only [Option.map_none,cutCount] at hlen
    omega
  | some m =>
    simp only [Option.map_some,cutCount] at hlen
    exact ⟨m,rfl,by omega⟩

end CutsOff

theorem exists_cuts (delimiter : TokenKind) (allowed : Option Nat) (ts : List Token) :
    ∃ cuts rest, CutsOff delimiter ts cuts rest ∧
      cuts.length = cutCount allowed (delimiterCount delimiter ts) ∧
      cutAt delimiter allowed ts = cuts.map Cut.piece ++ lastChunk rest := by
  induction ts using induction_on_first delimiter generalizing allowed with
  | free ts hf =>
    refine ⟨[],ts,.nil delimiter ts,?_,cutAt_of_free hf⟩
    rw [delimiterCount_of_free hf]
    cases allowed <;> simp [cutCount]
  | cut before t after hb ht ih =>
    by_cases hc : allowed = some 0
    · subst hc
      exact ⟨[],_,.nil delimiter _,by simp [cutCount],cutAt_of_no_cuts delimiter _⟩
    · obtain ⟨cuts,rest,hcuts,hlen,hpieces⟩ := ih (allowed.map fun n => n-1)
      refine ⟨⟨before,t⟩ :: cuts,rest,hcuts.cons hb ht,?_,?_⟩
      · rw [delimiterCount_of_first hb ht,cutCount_succ hc,List.length_cons,hlen]
      · rw [cutAt_cons_delimiter hc hb ht,hpieces]
        rfl

theorem length_lastChunk_le (ts : List Token) : (lastChunk ts).length ≤ 1 := by
  unfold lastChunk; split <;> simp

theorem dropLast_append_lastChunk_subset (pieces : List (List Token)) (rest : List Token) :
    (pieces ++ lastChunk rest).dropLast ⊆ pieces := by
  unfold lastChunk; split
  · simpa using List.dropLast_subset pieces
  · simp

theorem cuts_of_limit (limit : Option Nat) :
    (limit.map fun m => max m 1 - 1) = limit.map fun m => m-1 := by
  cases limit with
  | none => rfl
  | some m => simp only [Option.map_some,Option.some.injEq]; omega

/-- The chunks are the pieces before the first delimiters, as many as the limit allows, and the rest
unless it is empty. So no other token is lost or moved and no later delimiter is dropped; there are
no more chunks than the limit, only the last may hold a delimiter, and then there are no fewer. -/
theorem chunks_conserve_range (delimiter : TokenKind) (limit : Option Nat) (ts : List Token) :
    ∃ cuts rest, CutsOff delimiter ts cuts rest ∧
      cuts.length = cutCount (limit.map fun m => max m 1 - 1) (delimiterCount delimiter ts) ∧
      chunks delimiter limit ts = cuts.map Cut.piece ++ (if rest = [] then [] else [rest]) ∧
      (chunks delimiter limit ts).flatten.filter (fun t => t.kind ≠ delimiter) =
        ts.filter (fun t => t.kind ≠ delimiter) ∧
      (chunks delimiter limit ts).flatten.filter (fun t => t.kind = delimiter) =
        (ts.filter fun t => t.kind = delimiter).drop cuts.length ∧
      (∀ m ∈ limit, (chunks delimiter limit ts).length ≤ max m 1) ∧
      (∀ piece ∈ (chunks delimiter limit ts).dropLast, ∀ t ∈ piece, t.kind ≠ delimiter) ∧
      ((∃ t ∈ rest, t.kind = delimiter) →
        ∃ m ∈ limit, (chunks delimiter limit ts).length = max m 1) := by
  obtain ⟨cuts,rest,hcuts,hlen,hpieces⟩ := exists_cuts delimiter (limit.map fun n => n-1) ts
  have hc : chunks delimiter limit ts = cuts.map Cut.piece ++ lastChunk rest := hpieces
  have hflat : (chunks delimiter limit ts).flatten = (cuts.map Cut.piece).flatten ++ rest := by
    rw [hc,List.flatten_append,flatten_lastChunk]
  have hcount : (chunks delimiter limit ts).length = cuts.length + (lastChunk rest).length := by
    rw [hc,List.length_append,List.length_map]
  obtain ⟨hothers,hdelimiters⟩ := hcuts.filter_kept
  refine ⟨cuts,rest,hcuts,?_,hc,by rw [hflat,hothers],by rw [hflat,hdelimiters],?_,?_,?_⟩
  · rw [cuts_of_limit,hlen]
  · rintro m rfl
    have hl := length_lastChunk_le rest
    simp only [Option.map_some,cutCount] at hlen
    omega
  · intro piece hp
    rw [hc] at hp
    obtain ⟨c,hm,rfl⟩ := List.mem_map.1 (dropLast_append_lastChunk_subset _ _ hp)
    exact hcuts.piece_free c hm
  · rintro ⟨t,ht,hk⟩
    have hlast : (lastChunk rest).length = 1 := by
      rw [lastChunk_of_ne_nil (List.ne_nil_of_mem ht)]
      rfl
    rw [hcount,hlast]
    exact hcuts.exists_limit hlen ⟨t,ht,hk⟩

end LetPrint
