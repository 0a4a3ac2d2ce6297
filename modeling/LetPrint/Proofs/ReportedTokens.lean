import LetPrint.CommandLine.Report
import LetPrint.Proofs.Spelling
import LetPrint.Proofs.StatementFaults

set_option autoImplicit false

namespace LetPrint

/-- The token is one of those of some text. -/
def Token.Occurs (t : Token) : Prop :=
  ∃ source ts, (tokenize source).result = .ok ts ∧ t ∈ ts

namespace Token

theorem IsSpelt.text_ne_empty {t : Token} (h : t.IsSpelt) : t.text ≠ "" := by
  obtain ⟨c,cs,hc,-⟩ := h.exists_text
  intro ht
  rw [ht] at hc
  cases hc

/-- The tokens of texts are those the tokenizer can spell: each is the only token of its own text. -/
theorem occurs_iff_isSpelt {t : Token} : t.Occurs ↔ t.IsSpelt := by
  refine ⟨?_,?_⟩
  · intro h
    obtain ⟨source,ts,hts,ht⟩ := h
    exact isSpelt_of_tokenize hts ht
  · intro h
    have hs := result_tokenize_intercalate (List.forall_mem_singleton.2 h)
    exact ⟨_,[t],hs,List.mem_singleton_self t⟩

end Token

namespace CommandLine

variable {ts : List Token}

theorem isEmpty_offending (h : ∀ t ∈ ts, t.IsSpelt) : (offending ts).isEmpty = decide (ts = []) := by
  cases ts with
  | nil => rfl
  | cons t ts =>
    have ht := (h t (by simp)).text_ne_empty
    have hn : offending (t :: ts) ≠ "" := by
      cases ts <;> simp [offending,ht]
    simpa using hn

end CommandLine

section Errors

variable {source : String} {ts : List Token} {e : SyntaxError}

theorem subset_of_parseProgram_error (h : (parseProgram ts).result = .error e) :
    e.tokens ⊆ ts := by
  rcases cases_of_parseProgram_error h with rfl | ⟨fault,c,hc,-,rfl⟩ | ⟨value,hv,hl⟩
  · exact List.nil_subset _
  · exact hc
  · exact List.Subset.trans hl.isInfix.subset hv

theorem isSpelt_of_parseProgram_error (hts : (tokenize source).result = .ok ts)
    (h : (parseProgram ts).result = .error e) : ∀ t ∈ e.tokens, t.IsSpelt :=
  fun _ ht => Token.isSpelt_of_tokenize hts (subset_of_parseProgram_error h ht)

theorem result_parseSource_of_tokenize (hts : (tokenize source).result = .ok ts) :
    (parseSource source).result = (parseProgram ts).result := by
  rw [result_parseSource,hts]
  rfl

theorem cases_of_parseSource_error (h : (parseSource source).result = .error e) :
    (∃ c, e = ⟨.unrecognised (String.singleton c),[]⟩) ∨
      ∃ ts, (tokenize source).result = .ok ts ∧ (parseProgram ts).result = .error e := by
  cases hts : (tokenize source).result with
  | ok ts => exact .inr ⟨ts,rfl,(result_parseSource_of_tokenize hts).symm.trans h⟩
  | error e' =>
    rw [result_parseSource,hts] at h
    obtain rfl := Except.error.inj h
    rw [result_tokenize] at hts
    split at hts
    · cases hts
    · exact .inl ⟨_,(Except.error.inj hts).symm⟩

end Errors

open CommandLine in
/-- Tokens of texts, in whatever order, are read back from their texts with single spaces between
them. So if a text has tokens but is no program, the last line of the report shows the message if
the error is on no tokens, and in any other case a text that has just the tokens of the error. Which
of the two it is cannot always be told by the look of it: the words of a message may be tokens. -/
theorem tokenize_offending :
    (∀ ts : List Token, (∀ t ∈ ts, t.Occurs) → (tokenize (offending ts)).result = .ok ts) ∧
    ∀ source ts e file, (tokenize source).result = .ok ts →
      (parseSource source).result = .error e →
      ∃ shown, (report file e).getLast? = some ("   | " ++ shown) ∧
        (shown = if e.tokens = [] then e.message else offending e.tokens) ∧
        (e.tokens ≠ [] → (tokenize shown).result = .ok e.tokens) := by
  refine ⟨?_,?_⟩
  · intro ts h
    exact result_tokenize_intercalate fun t ht => Token.occurs_iff_isSpelt.1 (h t ht)
  · intro source ts e file hts h
    rw [result_parseSource_of_tokenize hts] at h
    have hs := isSpelt_of_parseProgram_error hts h
    refine ⟨if e.tokens = [] then e.message else offending e.tokens,?_,rfl,?_⟩
    · simp [report,isEmpty_offending hs]
    · intro hn
      rw [if_neg hn]
      exact result_tokenize_intercalate hs

open CommandLine in
/-- Numerals, slashes and a keyword stay apart from what comes next, and so do two names at fault. -/
theorem tokenize_offending_adjacent :
    (tokenize "1 2 / / let letter").result = .ok [⟨.number,"1"⟩,⟨.number,"2"⟩,⟨.div,"/"⟩,⟨.div,"/"⟩,
      ⟨.letKeyword,"let"⟩,⟨.ident,"letter"⟩] ∧
    (report "-" ⟨.expression .formless,[⟨.ident,"a"⟩,⟨.ident,"b"⟩]⟩).getLast? = some "   | a b" ∧
    (tokenize "a b").result = .ok [⟨.ident,"a"⟩,⟨.ident,"b"⟩] := by
  obtain ⟨ts,hts⟩ : ∃ ts : List Token, ts = [⟨.number,"1"⟩,⟨.number,"2"⟩,⟨.div,"/"⟩,⟨.div,"/"⟩,
    ⟨.letKeyword,"let"⟩,⟨.ident,"letter"⟩] := ⟨_,rfl⟩
  have hall : ∀ t ∈ ts, t.IsSpelt := by rw [hts]; decide
  have htext : offending ts = "1 2 / / let letter" := by rw [hts]; decide
  have hsource : (tokenize "print a b").result =
      .ok [⟨.printKeyword,"print"⟩,⟨.ident,"a"⟩,⟨.ident,"b"⟩] :=
    @result_tokenize_intercalate [⟨.printKeyword,"print"⟩,⟨.ident,"a"⟩,⟨.ident,"b"⟩] (by decide)
  have herror : (parseSource "print a b").result =
      .error ⟨.expression .formless,[⟨.ident,"a"⟩,⟨.ident,"b"⟩]⟩ := by
    rw [result_parseSource_of_tokenize hsource]
    cbv
  obtain ⟨shown,hr,hs,ht⟩ := tokenize_offending.2 "print a b" _ _ "-" hsource herror
  have hshown : shown = "a b" := hs.trans (by decide)
  rw [hshown] at hr ht
  rw [← htext,← hts]
  exact ⟨tokenize_offending.1 ts fun t ht => Token.occurs_iff_isSpelt.2 (hall t ht),hr,
    ht (by simp)⟩

end LetPrint
