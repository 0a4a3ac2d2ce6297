import LetPrint.Binary64.Written
import LetPrint.Proofs.Numerals

/-!
Written numbers are read back. In each of its forms a decimal is read as one that is rounded like
it, and the shortest decimal of a magnitude is rounded to that magnitude; so every finite number is
what its text is read as, and no two of them have the same text. No text of a number has blanks,
commas or brackets in it.
-/

set_option autoImplicit false

namespace LetPrint

section Digits

theorem isDigits_toDigits (n : Nat) : IsDigits (Nat.toDigits 10 n) :=
  ⟨by simp,fun _ hc => Nat.isDigit_of_mem_toDigits (by decide) (by decide) hc⟩

theorem digitsValue_toDigits (n : Nat) : digitsValue (Nat.toDigits 10 n) = n :=
  Nat.ofDigitChars_ten_toDigits

theorem isDigit_of_mem_zeros {n : Nat} {c : Char} (h : c ∈ Binary64.zeros n) :
    c.isDigit = true := by
  rw [List.eq_of_mem_replicate h]; rfl

theorem IsDigits.with_zeros {cs : List Char} (h : IsDigits cs) (n : Nat) :
    IsDigits (Binary64.zeros n ++ cs) ∧ IsDigits (cs ++ Binary64.zeros n) := by
  have hz : ∀ c ∈ Binary64.zeros n, c.isDigit = true := fun _ => isDigit_of_mem_zeros
  refine ⟨⟨by simp [h.1],?_⟩,⟨by simp [h.1],?_⟩⟩
  · exact List.forall_mem_append.2 ⟨hz,h.2⟩
  · exact List.forall_mem_append.2 ⟨h.2,hz⟩

theorem digitsValue_zeros_append (n : Nat) (cs : List Char) :
    digitsValue (Binary64.zeros n ++ cs) = digitsValue cs := by
  change Nat.ofDigitChars 10 (List.replicate n '0' ++ cs) 0 = Nat.ofDigitChars 10 cs 0
  simp [Nat.ofDigitChars_append]

theorem digitsValue_append_zeros (cs : List Char) (n : Nat) :
    digitsValue (cs ++ Binary64.zeros n) = digitsValue cs*10^n := by
  induction n with
  | zero => simp [Binary64.zeros]
  | succ n ih =>
    rw [Binary64.zeros,List.replicate_succ',← List.append_assoc,digitsValue_append_singleton,
      ← Binary64.zeros,ih,Nat.pow_succ,Nat.mul_comm 10,Nat.mul_assoc]
    rfl

theorem toList_toString_int (i : Int) :
    (toString i).toList = (if i < 0 then ['-'] else []) ++ Nat.toDigits 10 i.natAbs := by
  rw [Int.toString_eq_repr]
  cases i with
  | ofNat n => simp [Int.repr,Nat.repr_eq_ofList_toDigits]
  | negSucc n => simp [Int.repr,Nat.repr_eq_ofList_toDigits]

theorem readExponent?_toString (i : Int) : readExponent? ('e' :: (toString i).toList) = some i := by
  have hd := isDigits_toDigits i.natAbs
  have hv := digitsValue_toDigits i.natAbs
  rw [toList_toString_int]
  obtain ⟨c,cs,hc⟩ := List.exists_cons_of_ne_nil hd.1
  rw [hc] at hd hv ⊢
  have hall : (c :: cs).all Char.isDigit = true := List.all_eq_true.2 hd.2
  have hi : (if decide (i < 0) = true then -(i.natAbs : Int) else i.natAbs) = i := by
    by_cases hi : i < 0
    · rw [if_pos (by simpa using hi)]; omega
    · rw [if_neg (by simpa using hi)]; omega
  simp only [readExponent?,readSign_sign_append cs _ (hd.2 c (by simp)),hall,hv,hi]
  simp

end Digits

namespace Binary64

section Forms

variable {digits : List Char}

theorem read?_pointed_of_nonpos {point : Int} (h : IsDigits digits) (hp : point ≤ 0) :
    Decimal.read? (pointed digits point) = some ⟨digitsValue digits,point - digits.length⟩ := by
  obtain ⟨hz,-⟩ := h.with_zeros (-point).toNat
  have hr := Decimal.read?_of_fraction (show IsDigits ['0'] by simp [IsDigits]) hz
  have hv : digitsValue (['0'] ++ (zeros (-point).toNat ++ digits)) = digitsValue digits := by
    rw [← digitsValue_zeros_append (-point).toNat digits]
    exact digitsValue_zeros_append 1 _
  have hl : -((zeros (-point).toNat ++ digits).length : Int) = point - digits.length := by
    simp [zeros]; omega
  rw [hv,hl] at hr
  rw [pointed,if_pos hp,← hr]
  simp

theorem read?_pointed_of_long {point : Int} (h : IsDigits digits) (hp : 0 < point)
    (hl : digits.length ≤ point.toNat) :
    Decimal.read? (pointed digits point) =
      some ⟨digitsValue digits*10^(point.toNat - digits.length+1),-1⟩ := by
  obtain ⟨-,hz⟩ := h.with_zeros (point.toNat - digits.length)
  have hr := Decimal.read?_of_fraction hz (show IsDigits ['0'] by simp [IsDigits])
  have hv : digitsValue (digits ++ zeros (point.toNat - digits.length) ++ ['0']) =
      digitsValue digits*10^(point.toNat - digits.length+1) := by
    rw [← digitsValue_append_zeros,zeros,zeros,List.replicate_succ',List.append_assoc]
  rw [hv] at hr
  rw [pointed,if_neg (by omega),if_pos hl]
  exact hr

theorem read?_pointed_of_short {point : Int} (h : IsDigits digits) (hp : 0 < point)
    (hl : point.toNat < digits.length) :
    Decimal.read? (pointed digits point) = some ⟨digitsValue digits,point - digits.length⟩ := by
  have hw : IsDigits (digits.take point.toNat) := by
    refine ⟨?_,fun c hc => h.2 c (List.mem_of_mem_take hc)⟩
    rw [← List.length_pos_iff,List.length_take]; omega
  have hf : IsDigits (digits.drop point.toNat) := by
    refine ⟨?_,fun c hc => h.2 c (List.mem_of_mem_drop hc)⟩
    rw [← List.length_pos_iff,List.length_drop]; omega
  have hr := Decimal.read?_of_fraction hw hf
  have he : -((digits.drop point.toNat).length : Int) = point - digits.length := by
    rw [List.length_drop]; omega
  rw [List.take_append_drop,he] at hr
  rw [pointed,if_neg (by omega),if_neg (by omega)]
  exact hr

theorem read?_scientific (e : Int) (h : IsDigits digits) :
    Decimal.read? (scientific digits e) =
      some ⟨digitsValue digits,e+1 - digits.length⟩ := by
  obtain ⟨c,cs,rfl⟩ := List.exists_cons_of_ne_nil h.1
  have hw : IsDigits [c] := ⟨by simp,by simpa using h.2 c (by simp)⟩
  cases cs with
  | nil =>
    have hr := @Decimal.read?_of_digits_append [c] ('e' :: (toString e).toList) hw (by simp)
    rw [readExponent?_toString] at hr
    simpa [scientific] using hr
  | cons d cs =>
    have hf : IsDigits (d :: cs) := ⟨by simp,fun x hx => h.2 x (List.mem_cons_of_mem c hx)⟩
    have hr := @Decimal.read?_of_fraction_append [c] (d :: cs) ('e' :: (toString e).toList) hw hf
      (by simp)
    rw [readExponent?_toString] at hr
    have he : e - ((d :: cs).length : Int) = e+1 - (c :: d :: cs).length := by
      simp only [List.length_cons]; omega
    rw [Option.map_some,he] at hr
    rw [← show scientific (c :: d :: cs) e = [c] ++ '.' :: (d :: cs ++ 'e' :: (toString e).toList)
      from by simp [scientific]] at hr
    exact hr

end Forms

theorem writeDecimal_eq (d : Decimal) :
    d.exponent + (Nat.toDigits 10 d.digits).length ≤ 16 ∧
        writeDecimal d = pointed (Nat.toDigits 10 d.digits)
          (d.exponent + (Nat.toDigits 10 d.digits).length) ∨
      writeDecimal d = scientific (Nat.toDigits 10 d.digits)
        (d.exponent + (Nat.toDigits 10 d.digits).length - 1) := by
  simp only [writeDecimal]
  split
  · rename_i h
    have hh : d.exponent + (Nat.toDigits 10 d.digits).length - 1 ≤ 15 := h.2
    exact .inl ⟨by omega,by rw [Int.sub_add_cancel]⟩
  · exact .inr rfl

theorem exists_read?_writeDecimal (d : Decimal) :
    ∃ d', Decimal.read? (writeDecimal d) = some d' ∧ roundDecimal d' = roundDecimal d := by
  have hd := isDigits_toDigits d.digits
  have hv := digitsValue_toDigits d.digits
  have hw := writeDecimal_eq d
  obtain ⟨n,e⟩ := d
  simp only at hd hv hw
  generalize Nat.toDigits 10 n = digits at hd hv hw
  have hl := List.length_pos_iff.2 hd.1
  rcases hw with ⟨hr,hw⟩ | hw
  · rw [hw]
    by_cases hp : e + digits.length ≤ 0
    · exact ⟨_,read?_pointed_of_nonpos hd hp,by rw [hv,Int.add_sub_cancel]⟩
    · by_cases hlong : digits.length ≤ (e + digits.length : Int).toNat
      · -- what is read here has more digits than the decimal, but it is rounded like it
        obtain ⟨k,rfl⟩ := Int.eq_ofNat_of_zero_le (show 0 ≤ e by omega)
        have hk : (k + digits.length : Int).toNat - digits.length = k := by omega
        have hz := read?_pointed_of_long hd (by omega) hlong
        rw [hv,hk] at hz
        exact ⟨_,hz,@roundDecimal_mul_pow k 1 n (by omega) (by decide)⟩
      · exact ⟨_,read?_pointed_of_short hd (by omega) (by omega),by rw [hv,Int.add_sub_cancel]⟩
  · rw [hw]
    exact ⟨_,read?_scientific _ hd,by rw [hv,Int.sub_add_cancel,Int.add_sub_cancel]⟩

theorem exists_cons_writeDecimal (d : Decimal) :
    ∃ c cs, writeDecimal d = c :: cs ∧ c.isDigit = true := by
  have hd := isDigits_toDigits d.digits
  have hw := writeDecimal_eq d
  obtain ⟨c,cs,hc⟩ := List.exists_cons_of_ne_nil hd.1
  have hdig : c.isDigit = true := hd.2 c (by simp [hc])
  rw [hc] at hw
  rcases hw with ⟨-,hw⟩ | hw
  · rw [hw]
    unfold pointed; split
    · exact ⟨_,_,rfl,rfl⟩
    · split
      · exact ⟨_,_,rfl,hdig⟩
      · rename_i hp _
        obtain ⟨k,hk⟩ := Nat.exists_eq_succ_of_ne_zero
          (show (d.exponent + (c :: cs).length : Int).toNat ≠ 0 by omega)
        exact ⟨_,_,by rw [hk]; rfl,hdig⟩
  · rw [hw]
    exact ⟨_,_,rfl,hdig⟩

theorem read?_write {x : Binary64} (h : x.isFinite = true) : read? x.write = some x := by
  have hm : x.magnitude < infinityMagnitude := by simpa [isFinite] using h
  have hn : x.isNaN = false := by simpa [isNaN] using Nat.le_of_lt hm
  have hw : ∃ c cs d, writeMagnitude x.magnitude = c :: cs ∧ c.isDigit = true ∧
      Decimal.read? (c :: cs) = some d ∧ roundDecimal d = x.magnitude := by
    unfold writeMagnitude; split
    · rename_i hz
      exact ⟨'0',['.','0'],⟨0,-1⟩,rfl,rfl,by decide,by rw [hz]; decide⟩
    · obtain ⟨c,cs,hc,hd⟩ := exists_cons_writeDecimal (shortest x.magnitude)
      obtain ⟨d,hr,he⟩ := exists_read?_writeDecimal (shortest x.magnitude)
      exact ⟨c,cs,d,hc,hd,hc ▸ hr,he.trans (roundDecimal_shortest hm)⟩
  obtain ⟨c,cs,d,hc,hd,hr,he⟩ := hw
  rw [read?,write,String.toList_ofList,writeChars,hn,if_neg (by simp),hc,
    readChars?_sign_append x.negative cs hd,hr,Option.map_some]
  simp only [ofDecimal,he]

theorem eq_of_write_eq {x y : Binary64} (hx : x.isFinite = true) (hy : y.isFinite = true)
    (h : x.write = y.write) : x = y := by
  have hr := read?_write hx
  rw [h,read?_write hy] at hr
  exact (Option.some.inj hr).symm

section Characters

variable {P : Char → Prop} {digits : List Char}

theorem forall_mem_pointed (point : Int) (hds : ∀ c ∈ digits, P c) (h0 : P '0') (hp : P '.') :
    ∀ c ∈ pointed digits point, P c := by
  have hz : ∀ n, ∀ c ∈ zeros n, P c := fun n c hc => List.eq_of_mem_replicate hc ▸ h0
  unfold pointed; split
  · simp only [List.forall_mem_append,List.forall_mem_cons]
    exact ⟨⟨⟨h0,hp,List.forall_mem_nil P⟩,hz _⟩,hds⟩
  · split
    · simp only [List.forall_mem_append,List.forall_mem_cons]
      exact ⟨⟨hds,hz _⟩,hp,h0,List.forall_mem_nil P⟩
    · simp only [List.forall_mem_append,List.forall_mem_cons]
      exact ⟨fun c hc => hds c (List.mem_of_mem_take hc),hp,
        fun c hc => hds c (List.mem_of_mem_drop hc)⟩

theorem forall_mem_scientific (e : Int) (hds : ∀ c ∈ digits, P c)
    (hd : ∀ n, ∀ c ∈ Nat.toDigits 10 n, P c) (hp : P '.') (he : P 'e') (hs : P '-') :
    ∀ c ∈ scientific digits e, P c := by
  rw [scientific,toList_toString_int]
  simp only [List.forall_mem_append,List.forall_mem_cons]
  refine ⟨⟨fun c hc => hds c (List.mem_of_mem_take hc),?_⟩,he,?_,hd _⟩
  · split
    · exact List.forall_mem_nil P
    · exact List.forall_mem_cons.2 ⟨hp,fun c hc => hds c (List.mem_of_mem_drop hc)⟩
  · split
    · exact List.forall_mem_singleton.2 hs
    · exact List.forall_mem_nil P

theorem forall_mem_writeChars (x : Binary64) (ha : ∀ c : Char, c.isAlphanum = true → P c)
    (hp : P '.') (hs : P '-') : ∀ c ∈ x.writeChars, P c := by
  have hd : ∀ n, ∀ c ∈ Nat.toDigits 10 n, P c := by
    intro n c hc
    exact ha c (by simp [Char.isAlphanum,(isDigits_toDigits n).2 c hc])
  have hm : ∀ c ∈ writeMagnitude x.magnitude, P c := by
    unfold writeMagnitude; split
    · simpa using ⟨ha '0' rfl,hp,ha '0' rfl⟩
    · split
      · rcases writeDecimal_eq (shortest x.magnitude) with ⟨-,hw⟩ | hw
        · rw [hw]
          exact forall_mem_pointed _ (hd _) (ha '0' rfl) hp
        · rw [hw]
          exact forall_mem_scientific _ (hd _) hd hp (ha 'e' rfl) hs
      · simpa using ⟨ha 'i' rfl,ha 'n' rfl,ha 'f' rfl⟩
  unfold writeChars; split
  · simpa using ⟨ha 'N' rfl,ha 'a' rfl,ha 'N' rfl⟩
  · refine List.forall_mem_append.2 ⟨?_,hm⟩
    split
    · exact List.forall_mem_singleton.2 hs
    · exact List.forall_mem_nil P

end Characters

end Binary64

end LetPrint
