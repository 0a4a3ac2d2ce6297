import LetPrint.Proofs.MaximalMunch

set_option autoImplicit false

namespace LetPrint

theorem LexemeClass.eq_blank_of_newline_mem {cls : LexemeClass} {text : List Char}
    (h : cls.Accepts text) (hn : '\n' ∈ text) : cls = .blank := by
  cases cls with
  | blank => rfl
  | word =>
    obtain ⟨c,tail,rfl,hc,ht⟩ := h
    rcases List.mem_cons.1 hn with rfl | hn
    · exact absurd hc (by decide)
    · exact absurd (ht _ hn) (by decide)
  | numeral =>
    rcases h with ⟨-,hd⟩ | ⟨whole,fraction,rfl,hw,hf⟩
    · exact absurd (hd _ hn) (by decide)
    · have hn : '\n' ∈ whole ∨ '\n' ∈ fraction := by simpa using hn
      rcases hn with hn | hn
      · exact absurd (hw.2 _ hn) (by decide)
      · exact absurd (hf.2 _ hn) (by decide)
  | comment =>
    obtain ⟨tail,rfl,ht⟩ := h
    have hn : '\n' ∈ tail := by simpa using hn
    exact absurd rfl (ht _ hn)
  | mark kind =>
    obtain ⟨c,rfl,hm⟩ := h
    obtain rfl := List.mem_singleton.1 hn
    simp [marks] at hm

theorem LexemeClass.prefix_of_prefix_newline {cls : LexemeClass} {text cs more : List Char}
    (h : cls.Accepts text) (hp : text <+: cs ++ '\n' :: more)
    (hb : ¬ ∀ c ∈ cs, Text.isBlank c = true) : text <+: cs := by
  rcases List.prefix_or_prefix_of_prefix hp (List.prefix_append cs ('\n' :: more)) with hp' | hp'
  · exact hp'
  · obtain ⟨tail,rfl⟩ := hp'
    cases tail with
    | nil => simp
    | cons c tail =>
      have hc : c = '\n' := by
        have ht := (List.prefix_append_right_inj cs).1 hp
        exact (List.cons_prefix_cons.1 ht).1
      obtain rfl := eq_blank_of_newline_mem h (by simp [hc])
      exact absurd (fun d hd => h.2 d (by simp [hd])) hb

theorem Lexeme.next?_append_newline {cs : List Char} (more : List Char)
    (hb : ¬ ∀ c ∈ cs, Text.isBlank c = true) :
    next? (cs ++ '\n' :: more) = (next? cs).map fun next => (next.1,next.2 ++ '\n' :: more) := by
  cases h : next? cs with
  | none =>
    rw [next?_eq_none_iff] at h
    rw [Option.map_none,next?_eq_none_iff]
    intro cls text ha hp
    exact h cls text ha (LexemeClass.prefix_of_prefix_newline ha hp hb)
  | some next =>
    obtain ⟨l,rest⟩ := next
    have hl := isLongest_of_next? h
    obtain rfl := text_append_of_next? h
    have hw : IsLongest (l.text ++ (rest ++ '\n' :: more)) l := by
      refine ⟨hl.accepted,List.prefix_append _ _,?_⟩
      intro cls text ha hp
      rw [← List.append_assoc] at hp
      exact hl.longest cls text ha (LexemeClass.prefix_of_prefix_newline ha hp hb)
    rw [List.append_assoc,hw.next?,Option.map_some]

def tokensOf (cs : List Char) : List Token × List Char :=
  ((Lexeme.scan cs).1.filterMap Lexeme.token?,(Lexeme.scan cs).2)

section Tokens

variable {cs rest more : List Char} {l : Lexeme}

theorem tokensOf_of_none (h : Lexeme.next? cs = none) : tokensOf cs = ([],cs) := by
  simp [tokensOf,Lexeme.scan_of_none h]

theorem tokensOf_of_some (h : Lexeme.next? cs = some (l,rest)) :
    tokensOf cs = (l.token?.toList ++ (tokensOf rest).1,(tokensOf rest).2) := by
  simp only [tokensOf,Lexeme.scan_of_some h]
  cases ht : l.token? <;> simp [ht]

theorem tokensOf_dropWhile_isBlank (cs : List Char) :
    tokensOf (cs.dropWhile Text.isBlank) = tokensOf cs := by
  cases cs with
  | nil => rfl
  | cons c cs =>
    cases hc : Text.isBlank c with
    | false => rw [List.dropWhile_cons_of_neg (by simp [hc])]
    | true =>
      rw [List.dropWhile_cons_of_pos hc,tokensOf_of_some (Lexeme.next?_of_isBlank hc)]
      rfl

theorem tokensOf_blank_append (more : List Char) (hb : ∀ c ∈ cs, Text.isBlank c = true) :
    tokensOf (cs ++ more) = tokensOf more := by
  rw [← tokensOf_dropWhile_isBlank,List.dropWhile_append_of_pos hb,tokensOf_dropWhile_isBlank]

theorem tokensOf_append_newline (cs more : List Char) :
    tokensOf (cs ++ '\n' :: more) =
      if (tokensOf cs).2 = [] then ((tokensOf cs).1 ++ (tokensOf more).1,(tokensOf more).2)
      else ((tokensOf cs).1,(tokensOf cs).2 ++ '\n' :: more) := by
  induction hn : cs.length using Nat.strongRecOn generalizing cs with
  | ind n ih =>
    subst hn
    by_cases hb : ∀ c ∈ cs, Text.isBlank c = true
    · -- the newline joins the blanks before it, which are all there is
      have hcs : tokensOf cs = ([],[]) := by
        have h := tokensOf_blank_append [] hb
        rw [List.append_nil] at h
        rw [h,tokensOf_of_none rfl]
      have hn : ∀ c ∈ cs ++ ['\n'], Text.isBlank c = true := by
        intro c hc
        rcases List.mem_append.1 hc with hc | hc
        · exact hb c hc
        · rw [List.mem_singleton.1 hc]; decide
      rw [List.append_cons,tokensOf_blank_append more hn,hcs]
      simp
    · have hw := Lexeme.next?_append_newline more hb
      cases h : Lexeme.next? cs with
      | none =>
        have hcs : cs ≠ [] := by
          rintro rfl
          exact hb (List.forall_mem_nil _)
        rw [h,Option.map_none] at hw
        rw [tokensOf_of_none h,tokensOf_of_none hw,if_neg hcs]
      | some next =>
        obtain ⟨l,rest⟩ := next
        rw [h,Option.map_some] at hw
        rw [tokensOf_of_some h,tokensOf_of_some hw,
          ih rest.length (Lexeme.length_rest_lt h) rest rfl]
        split <;> simp

end Tokens

theorem result_tokenize_eq_tokensOf (source : String) :
    (tokenize source).result =
      match (tokensOf source.toList).2 with
      | [] => .ok (tokensOf source.toList).1
      | c :: _ => .error ⟨.unrecognised (String.singleton c),[]⟩ := result_tokenize source

/-- Two texts with a newline between them are tokenized one after the other; an error of the first
comes before one of the second. -/
theorem tokenize_newline (a b : String) :
    (tokenize (a ++ "\n" ++ b)).result = (do
      let first ← (tokenize a).result
      let second ← (tokenize b).result
      return first ++ second) := by
  have hs : (a ++ "\n" ++ b).toList = a.toList ++ '\n' :: b.toList := by simp
  simp only [result_tokenize_eq_tokensOf,hs,tokensOf_append_newline]
  cases (tokensOf a.toList).2 with
  | cons c left => rfl
  | nil => cases (tokensOf b.toList).2 <;> rfl

end LetPrint
