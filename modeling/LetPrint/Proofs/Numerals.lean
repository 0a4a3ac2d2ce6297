import LetPrint.Binary64.Reading
import LetPrint.Proofs.LexemeClasses
import LetPrint.Proofs.Rounding
import Mathlib.Data.List.TakeWhile

set_option autoImplicit false

namespace LetPrint

theorem Decimal.read?_of_digits_append {cs rest : List Char} (h : IsDigits cs)
    (hr : ∀ c ∈ rest.head?, (c.isDigit || c == '.') = false) :
    Decimal.read? (cs ++ rest) = (readExponent? rest).map fun e => ⟨digitsValue cs,e⟩ := by
  have hd : ∀ c ∈ rest.head?, c.isDigit = false := fun c hc => (Bool.or_eq_false_iff.1 (hr c hc)).1
  have hp : readFraction rest = ([],rest) := by
    unfold readFraction; split
    · simp at hr
    · rfl
  simp [Decimal.read?,takeWhile_append_of_boundary h.2 hd,dropWhile_append_of_boundary h.2 hd,hp,h.1]

theorem Decimal.read?_of_fraction_append {whole fraction rest : List Char} (hw : IsDigits whole)
    (hf : IsDigits fraction) (hr : ∀ c ∈ rest.head?, c.isDigit = false) :
    Decimal.read? (whole ++ '.' :: (fraction ++ rest)) =
      (readExponent? rest).map fun e => ⟨digitsValue (whole ++ fraction),e - fraction.length⟩ := by
  have hp : ∀ c ∈ ('.' :: (fraction ++ rest)).head?, c.isDigit = false := by simp
  have hfr : readFraction ('.' :: (fraction ++ rest)) = (fraction,rest) := by
    rw [readFraction,takeWhile_append_of_boundary hf.2 hr,dropWhile_append_of_boundary hf.2 hr]
  simp [Decimal.read?,takeWhile_append_of_boundary hw.2 hp,dropWhile_append_of_boundary hw.2 hp,hfr,
    hw.1]

theorem Decimal.read?_of_digits {cs : List Char} (h : IsDigits cs) :
    Decimal.read? cs = some ⟨digitsValue cs,0⟩ := by
  simpa [readExponent?] using @Decimal.read?_of_digits_append cs [] h (by simp)

theorem Decimal.read?_of_fraction {whole fraction : List Char} (hw : IsDigits whole)
    (hf : IsDigits fraction) :
    Decimal.read? (whole ++ '.' :: fraction) =
      some ⟨digitsValue (whole ++ fraction),-fraction.length⟩ := by
  simpa [readExponent?] using @Decimal.read?_of_fraction_append whole fraction [] hw hf (by simp)

theorem readSign_of_isDigit {c : Char} (cs : List Char) (h : c.isDigit = true) :
    readSign (c :: cs) = (false,c :: cs) := by
  unfold readSign; split
  · rename_i hc
    cases hc
    simp at h
  · rename_i hc
    cases hc
    simp at h
  · rfl

theorem readSign_sign_append {c : Char} (cs : List Char) (P : Prop) [Decidable P]
    (h : c.isDigit = true) :
    readSign ((if P then ['-'] else []) ++ c :: cs) = (decide P,c :: cs) := by
  by_cases hP : P
  · simp [hP,readSign]
  · simpa [hP] using readSign_of_isDigit cs h

namespace Binary64

theorem readSpecial?_of_isDigit {c : Char} (negative : Bool) (cs : List Char)
    (h : c.isDigit = true) : readSpecial? negative (c :: cs) = none := by
  have hc : c.toLower = c := by
    rw [isDigit_iff] at h
    have hu : ¬ (c.val ≥ 'A'.val ∧ c.val ≤ 'Z'.val) := by
      intro hu
      have h65 : 65 ≤ c.toNat := hu.1
      omega
    delta Char.toLower
    rw [dif_neg hu]
  have hne : ∀ name : String, (∀ d ∈ name.toList.head?, d.isDigit = false) →
      String.ofList ((c :: cs).map Char.toLower) ≠ name := by
    intro name hd he
    rw [← String.toList_inj,String.toList_ofList,List.map_cons,hc] at he
    have hd := hd c (by simp [← he])
    rw [h] at hd
    cases hd
  unfold readSpecial?
  rw [if_neg (not_or.2 ⟨hne "inf" (by simp),hne "infinity" (by simp)⟩),
    if_neg (hne "nan" (by simp))]

theorem readChars?_sign_append {c : Char} (negative : Bool) (cs : List Char)
    (h : c.isDigit = true) :
    readChars? ((if negative then ['-'] else []) ++ c :: cs) =
      (Decimal.read? (c :: cs)).map (ofDecimal negative) := by
  have hs := readSign_sign_append cs (negative = true) h
  simp [readChars?,hs,readSpecial?_of_isDigit negative cs h]

theorem readChars?_of_isDigit {c : Char} {cs : List Char} (h : c.isDigit = true) :
    readChars? (c :: cs) = (Decimal.read? (c :: cs)).map (ofDecimal false) :=
  readChars?_sign_append false cs h

theorem readChars?_of_digits {cs : List Char} (h : IsDigits cs) :
    readChars? cs = some (ofDecimal false ⟨digitsValue cs,0⟩) := by
  have hd := Decimal.read?_of_digits h
  obtain ⟨c,tail,rfl⟩ := List.exists_cons_of_ne_nil h.1
  rw [readChars?_of_isDigit (h.2 c (by simp)),hd,Option.map_some]

theorem readChars?_of_fraction {whole fraction : List Char} (hw : IsDigits whole)
    (hf : IsDigits fraction) :
    readChars? (whole ++ '.' :: fraction) =
      some (ofDecimal false ⟨digitsValue (whole ++ fraction),-fraction.length⟩) := by
  have hd := Decimal.read?_of_fraction hw hf
  obtain ⟨c,tail,rfl⟩ := List.exists_cons_of_ne_nil hw.1
  rw [List.cons_append] at hd ⊢
  rw [readChars?_of_isDigit (hw.2 c (by simp)),hd,Option.map_some]

theorem negative_of_read? {text : String} {x : Binary64}
    (h : LexemeClass.numeral.Accepts text.toList) (hx : read? text = some x) :
    x.negative = false := by
  unfold read? at hx
  rcases h with h | ⟨whole,fraction,hcs,hw,hf⟩
  · rw [readChars?_of_digits h] at hx
    cases hx; rfl
  · rw [hcs,readChars?_of_fraction hw hf] at hx
    cases hx; rfl

theorem exists_digits (n : Nat) {k : Nat} (hk : k ≠ 0) :
    ∃ whole fraction, IsDigits whole ∧ IsDigits fraction ∧ fraction.length = k ∧
      digitsValue (whole ++ fraction) = n := by
  -- leading zeros make sure that a digit is left before the point
  obtain ⟨cs,hcs⟩ : ∃ cs, cs = List.replicate (k+1) '0' ++ Nat.toDigits 10 n := ⟨_,rfl⟩
  have hl : k < cs.length := by simp [hcs]; omega
  have hd : ∀ c ∈ cs, c.isDigit = true := by
    intro c hc
    rw [hcs,List.mem_append] at hc
    rcases hc with hc | hc
    · rw [List.eq_of_mem_replicate hc]; rfl
    · exact Nat.isDigit_of_mem_toDigits (by decide) (by decide) hc
  have hv : digitsValue cs = n := by
    change Nat.ofDigitChars 10 cs 0 = n
    simp [hcs,Nat.ofDigitChars_append]
  refine ⟨cs.take (cs.length - k),cs.drop (cs.length - k),⟨?_,?_⟩,⟨?_,?_⟩,?_,?_⟩
  · rw [← List.length_pos_iff,List.length_take]; omega
  · exact fun c hc => hd c (List.mem_of_mem_take hc)
  · rw [← List.length_pos_iff,List.length_drop]; omega
  · exact fun c hc => hd c (List.mem_of_mem_drop hc)
  · rw [List.length_drop]; omega
  · rw [List.take_append_drop,hv]

theorem exists_numeral {x : Binary64} (hf : x.isFinite = true) (hn : x.negative = false) :
    ∃ text : String, LexemeClass.numeral.Accepts text.toList ∧ read? text = some x := by
  obtain ⟨whole,fraction,hw,hfr,hl,hv⟩ := exists_digits (exactDecimal x.magnitude).digits
    (show 1074 ≠ 0 by decide)
  have hx : ofDecimal false (exactDecimal x.magnitude) = x := by
    have hm : x.magnitude < infinityMagnitude := by simpa [isFinite] using hf
    obtain ⟨negative,magnitude,_⟩ := x
    cases hn
    simp only [ofDecimal,mk.injEq,true_and]
    exact roundDecimal_exactDecimal hm
  refine ⟨String.ofList (whole ++ '.' :: fraction),?_,?_⟩
  · rw [String.toList_ofList]
    exact .inr ⟨whole,fraction,rfl,hw,hfr⟩
  · rw [read?,String.toList_ofList,readChars?_of_fraction hw hfr,hv,hl]
    exact congrArg some hx

end Binary64

end LetPrint
