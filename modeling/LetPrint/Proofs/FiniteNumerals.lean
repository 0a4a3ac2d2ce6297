import LetPrint.Proofs.Overflow
import LetPrint.Proofs.ReportedTokens
import LetPrint.Proofs.RoundTrip
import Mathlib.Algebra.Order.Field.Rat
import Mathlib.Tactic.Ring

set_option autoImplicit false

namespace LetPrint

section Digits

variable {cs : List Char}

theorem digitsValue_append (as bs : List Char) :
    digitsValue (as ++ bs) = digitsValue as*10^bs.length + digitsValue bs := by
  change Nat.ofDigitChars 10 (as ++ bs) 0 = Nat.ofDigitChars 10 as 0*10^bs.length +
    Nat.ofDigitChars 10 bs 0
  rw [Nat.ofDigitChars_append,Nat.ofDigitChars_eq_ofDigitChars_zero,Nat.mul_comm]

theorem digitsValue_lt (h : ∀ c ∈ cs, c.isDigit = true) : digitsValue cs < 10^cs.length := by
  induction cs using List.reverseRecOn with
  | nil => decide
  | append_singleton cs c ih =>
    rw [List.forall_mem_append,List.forall_mem_singleton,isDigit_iff] at h
    have hv : digitValue c ≤ 9 := by
      have h0 : '0'.toNat = 48 := rfl
      rw [digitValue]
      omega
    have ih := ih h.1
    rw [digitsValue_append_singleton,List.length_append,List.length_singleton,Nat.pow_succ]
    omega

def wholeDigits (cs : List Char) : List Char := cs.takeWhile Char.isDigit

def fractionDigits (cs : List Char) : List Char := (cs.dropWhile Char.isDigit).drop 1

/-- The number that the digits of a numeral spell. -/
def numeralValue (cs : List Char) : ℚ :=
  digitsValue (wholeDigits cs) + digitsValue (fractionDigits cs)/10^(fractionDigits cs).length

theorem wholeDigits_of_digits (h : ∀ c ∈ cs, c.isDigit = true) :
    wholeDigits cs = cs ∧ fractionDigits cs = [] := by
  have ht := @takeWhile_append_of_boundary _ cs [] h (by simp)
  have hd := @dropWhile_append_of_boundary _ cs [] h (by simp)
  rw [List.append_nil] at ht hd
  exact ⟨ht,by rw [fractionDigits,hd]; rfl⟩

theorem wholeDigits_of_fraction {whole : List Char} (h : ∀ c ∈ whole, c.isDigit = true)
    (fraction : List Char) :
    wholeDigits (whole ++ '.' :: fraction) = whole ∧
      fractionDigits (whole ++ '.' :: fraction) = fraction := by
  have hb : ∀ c ∈ ('.' :: fraction).head?, c.isDigit = false := by simp
  refine ⟨takeWhile_append_of_boundary h hb,?_⟩
  rw [fractionDigits,dropWhile_append_of_boundary h hb]
  rfl

theorem numeralValue_of_digits (h : ∀ c ∈ cs, c.isDigit = true) :
    numeralValue cs = digitsValue cs := by
  obtain ⟨hw,hf⟩ := wholeDigits_of_digits h
  rw [numeralValue,hw,hf,show digitsValue [] = 0 from rfl,Nat.cast_zero,zero_div,add_zero]

end Digits

section Numerals

variable {text : String}

theorem exists_decimal_of_numeral (h : LexemeClass.numeral.Accepts text.toList) :
    ∃ n k : Nat, Binary64.read? text = some (.ofDecimal false ⟨n,-k⟩) ∧
      numeralValue text.toList = n/10^k ∧ n < 10^(wholeDigits text.toList).length*10^k := by
  rcases h with h | ⟨whole,fraction,hcs,hw,hf⟩
  · refine ⟨digitsValue text.toList,0,Binary64.readChars?_of_digits h,?_,?_⟩
    · rw [numeralValue_of_digits h.2,pow_zero,div_one]
    · rw [(wholeDigits_of_digits h.2).1,Nat.pow_zero,Nat.mul_one]
      exact digitsValue_lt h.2
  · obtain ⟨hwhole,hfraction⟩ := wholeDigits_of_fraction hw.2 fraction
    refine ⟨digitsValue (whole ++ fraction),fraction.length,?_,?_,?_⟩
    · rw [Binary64.read?,hcs]
      exact Binary64.readChars?_of_fraction hw hf
    · have hp : (10 : ℚ)^fraction.length ≠ 0 := pow_ne_zero _ (by decide)
      rw [hcs,numeralValue,hwhole,hfraction,digitsValue_append]
      push_cast
      rw [add_div,mul_div_cancel_right₀ _ hp]
    · rw [hcs,hwhole,← Nat.pow_add,← List.length_append]
      exact digitsValue_lt (List.forall_mem_append.2 ⟨hw.2,hf.2⟩)

theorem cast_overflowThreshold : (Binary64.overflowThreshold : ℚ) = 2^1024 - 2^970 := by
  rw [Binary64.overflowThreshold,show 1024 = 54+970 from rfl,pow_add]
  generalize 970 = k
  push_cast
  ring

theorem exists_number_of_numeral (h : LexemeClass.numeral.Accepts text.toList) :
    ∃ x, Binary64.read? text = some x ∧ x.negative = false ∧
      (x.isFinite = true ↔ numeralValue text.toList < 2^1024 - 2^970) := by
  obtain ⟨n,k,hr,hv,-⟩ := exists_decimal_of_numeral h
  refine ⟨_,hr,Binary64.negative_of_read? h hr,?_⟩
  have hp : (0 : ℚ) < 10^k := pow_pos (by decide) k
  have hle := Binary64.roundDecimal_le ⟨n,-k⟩
  have hlt : numeralValue text.toList < 2^1024 - 2^970 ↔
      n < Binary64.overflowThreshold*10^k := by
    rw [hv,← cast_overflowThreshold,div_lt_iff₀ hp]
    exact_mod_cast Iff.rfl
  rw [hlt,← Nat.not_le,← Binary64.roundDecimal_eq_infinity_iff,Binary64.isFinite,
    decide_eq_true_eq]
  exact Nat.lt_iff_le_and_ne.trans ⟨fun h => h.2,fun h => ⟨hle,h⟩⟩

theorem numeralValue_lt (h : LexemeClass.numeral.Accepts text.toList) :
    numeralValue text.toList < 10^(wholeDigits text.toList).length := by
  obtain ⟨n,k,-,hv,hn⟩ := exists_decimal_of_numeral h
  rw [hv,div_lt_iff₀ (pow_pos (by decide) k)]
  exact_mod_cast hn

theorem lt_length_wholeDigits (h : LexemeClass.numeral.Accepts text.toList)
    (hv : 2^1024 - 2^970 ≤ numeralValue text.toList) :
    308 < (wholeDigits text.toList).length := by
  have hlt : Binary64.overflowThreshold < 10^(wholeDigits text.toList).length := by
    have hv := lt_of_le_of_lt hv (numeralValue_lt h)
    rw [← cast_overflowThreshold] at hv
    exact_mod_cast hv
  by_contra hl
  have h308 : 10^308 ≤ Binary64.overflowThreshold := by decide +kernel
  have hp : 10^(wholeDigits text.toList).length ≤ 10^308 :=
    pow_le_pow_right₀ (by decide) (by omega)
  exact Nat.lt_irrefl _ (Nat.lt_of_lt_of_le hlt (Nat.le_trans hp h308))

end Numerals

section Sources

variable {source text : String} {ts : List Token} {t : Token}

theorem parsePrimary_of_numeral (hs : t.IsSpelt) (hk : t.kind = .number) :
    ((∃ e, parsePrimary t = .error e) ↔ 2^1024 - 2^970 ≤ numeralValue t.text.toList) ∧
      (numeralValue t.text.toList < 2^1024 - 2^970 → ∃ x : Binary64,
        parsePrimary t = .ok (.number x) ∧ x.isFinite = true ∧ x.negative = false) := by
  obtain ⟨x,hx,hn,hf⟩ := exists_number_of_numeral ((Token.isSpelt_iff_of_number hk).1 hs)
  have hfinite : ReadsFinite t ↔ numeralValue t.text.toList < 2^1024 - 2^970 := by
    rw [← hf]
    refine ⟨?_,fun h _ => ⟨x,hx,h⟩⟩
    intro h
    obtain ⟨y,hy,hfin⟩ := h hk
    obtain rfl := Option.some.inj (hx.symm.trans hy)
    exact hfin
  rw [← not_lt,← hfinite]
  refine ⟨⟨?_,fun h => ⟨_,parsePrimary_of_not_readsFinite h⟩⟩,?_⟩
  · rintro ⟨e,he⟩ h
    rw [parsePrimary_eq_ok_iff.2 ⟨.number hk hx,h⟩] at he
    cases he
  · exact fun h => ⟨x,parsePrimary_eq_ok_iff.2 ⟨.number hk hx,h⟩,hf.2 (hfinite.1 h),hn⟩

theorem LocatedIn.exists_numeral {pairs : Nat} {e : SyntaxError} (h : LocatedIn ts pairs e)
    (hf : e.fault = .number text) :
    ⟨.number,text⟩ ∈ ts ∧ ∃ e', parsePrimary ⟨.number,text⟩ = .error e' := by
  cases h with
  | expression | nesting => cases hf
  | @number t ht hk he =>
    obtain ⟨kind,_⟩ := t
    obtain rfl := Fault.number.inj hf
    cases hk
    rw [parseExpr,result_parseExprAt (Nat.zero_le _),Form.ofRange_singleton rfl] at he
    exact ⟨ht,_,he⟩

theorem exists_numeral_of_parseProgram_error {e : SyntaxError}
    (h : (parseProgram ts).result = .error e) (hf : e.fault = .number text) :
    ⟨.number,text⟩ ∈ ts ∧ ∃ e', parsePrimary ⟨.number,text⟩ = .error e' := by
  rcases cases_of_parseProgram_error h with rfl | ⟨fault,c,-,-,rfl⟩ | ⟨value,hv,hl⟩
  · cases hf
  · cases hf
  · obtain ⟨ht,he⟩ := hl.exists_numeral hf
    exact ⟨hv ht,he⟩

/-- The numerals of a text fail on their own if their value is at least half way from the largest
finite number to two to the 1024, and else they are read as finite numbers without a sign. So an
error about a numeral is about one of the text with more than 308 digits before the point, and all
numbers of a program that is read are finite and have no sign. -/
theorem numerals_fail_by_overflow (source : String) :
    (∀ ts, (tokenize source).result = .ok ts → ∀ t ∈ ts, t.kind = .number →
      ((∃ e, parsePrimary t = .error e) ↔ 2^1024 - 2^970 ≤ numeralValue t.text.toList) ∧
      (numeralValue t.text.toList < 2^1024 - 2^970 → ∃ x : Binary64,
        parsePrimary t = .ok (.number x) ∧ x.isFinite = true ∧ x.negative = false)) ∧
    (∀ e text, (parseSource source).result = .error e → e.fault = .number text →
      (∃ ts, (tokenize source).result = .ok ts ∧ ⟨.number,text⟩ ∈ ts) ∧
      308 < (wholeDigits text.toList).length) ∧
    ∀ p x, (parseSource source).result = .ok p → .number x ∈ p.leaves →
      x.isFinite = true ∧ x.negative = false := by
  refine ⟨?_,?_,?_⟩
  · exact fun ts hts t ht hk => parsePrimary_of_numeral (Token.isSpelt_of_tokenize hts ht) hk
  · intro e text h hf
    rcases cases_of_parseSource_error h with ⟨c,rfl⟩ | ⟨ts,hts,h⟩
    · cases hf
    · obtain ⟨ht,he⟩ := exists_numeral_of_parseProgram_error h hf
      have hs : Token.IsSpelt ⟨.number,text⟩ := Token.isSpelt_of_tokenize hts ht
      have hv := (parsePrimary_of_numeral hs rfl).1.1 he
      exact ⟨⟨ts,hts,ht⟩,lt_length_wholeDigits ((Token.isSpelt_iff_of_number rfl).1 hs) hv⟩
  · intro p x h hx
    exact (printable_of_result_parseSource h Binary64.write).numbers x hx

theorem numerals_fail_by_overflow_nines :
    (∃ e, parsePrimary ⟨.number,String.ofList (List.replicate 309 '9')⟩ = .error e) ∧
      ∃ x : Binary64, parsePrimary ⟨.number,"2.50"⟩ = .ok (.number x) ∧ x.isFinite = true ∧
        x.negative = false := by
  refine ⟨?_,?_⟩
  · obtain ⟨nines,hnines⟩ : ∃ cs, cs = List.replicate 309 '9' := ⟨_,rfl⟩
    have hd : IsDigits nines := by
      rw [hnines]
      refine ⟨List.cons_ne_nil _ _,fun c hc => ?_⟩
      rw [List.eq_of_mem_replicate hc]
      rfl
    have hle : Binary64.overflowThreshold ≤ digitsValue nines := by
      rw [hnines]
      decide +kernel
    rw [← hnines]
    obtain ⟨t,ht⟩ : ∃ t : Token, t = ⟨.number,String.ofList nines⟩ := ⟨_,rfl⟩
    have hcs : t.text.toList = nines := by rw [ht,String.toList_ofList]
    have hk : t.kind = .number := by rw [ht]
    have hs : t.IsSpelt := (Token.isSpelt_iff_of_number hk).2 (.inl (by rwa [hcs]))
    have hv : (2 : ℚ)^1024 - 2^970 ≤ numeralValue t.text.toList := by
      rw [hcs,numeralValue_of_digits hd.2,← cast_overflowThreshold]
      exact Nat.cast_le.2 hle
    have htok := result_tokenize_intercalate (List.forall_mem_singleton.2 hs)
    rw [← ht]
    exact ((numerals_fail_by_overflow _).1 _ htok t (List.mem_singleton_self t) hk).1.2 hv
  · have htok : (tokenize "print 2.50").result =
        .ok [⟨.printKeyword,"print"⟩,⟨.number,"2.50"⟩] :=
      @result_tokenize_intercalate [⟨.printKeyword,"print"⟩,⟨.number,"2.50"⟩] (by decide)
    have h := (numerals_fail_by_overflow _).1 _ htok ⟨.number,"2.50"⟩ (by simp) rfl
    refine h.2 (lt_of_not_ge fun hv => ?_)
    have ha : LexemeClass.numeral.Accepts "2.50".toList :=
      .inr ⟨['2'],['5','0'],rfl,⟨by simp,by simp⟩,⟨by simp,by simp⟩⟩
    exact absurd (lt_length_wholeDigits ha hv) (by decide)

end Sources

end LetPrint
