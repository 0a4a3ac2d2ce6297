import LetPrint.Proofs.CommandLine

set_option autoImplicit false

namespace LetPrint

def TokenKind.fixedText? : TokenKind → Option String
  | number | ident => none
  | plus => some "+"
  | minus => some "-"
  | mul => some "*"
  | div => some "/"
  | equal => some "="
  | semicolon => some ";"
  | lparen => some "("
  | rparen => some ")"
  | letKeyword => some "let"
  | printKeyword => some "print"

theorem TokenKind.fixedText?_of_mem_marks {c : Char} {kind : TokenKind} (h : (c,kind) ∈ marks) :
    kind.fixedText? = some (String.singleton c) := by
  simp only [marks,List.mem_cons,Prod.mk.injEq,List.not_mem_nil,or_false] at h
  rcases h with ⟨rfl,rfl⟩ | ⟨rfl,rfl⟩ | ⟨rfl,rfl⟩ | ⟨rfl,rfl⟩ | ⟨rfl,rfl⟩ | ⟨rfl,rfl⟩ | ⟨rfl,rfl⟩ |
    ⟨rfl,rfl⟩ <;> rfl

theorem TokenKind.blank_not_mem_name (k : TokenKind) : ' ' ∉ k.name.toList := by
  cases k <;> decide

def isLiteralChar (c : Char) : Bool := isWordChar c || c == '.'

theorem isLiteralChar_of_isDigit {c : Char} (h : c.isDigit = true) : isLiteralChar c = true := by
  simp [isLiteralChar,isWordChar,h]

theorem LexemeClass.isLiteralChar_of_word {text : List Char} (h : word.Accepts text) :
    ∀ c ∈ text, isLiteralChar c = true := by
  obtain ⟨c,tail,rfl,hc,ht⟩ := h
  refine List.forall_mem_cons.2 ⟨?_,?_⟩
  · simp [isLiteralChar,isWordChar,hc]
  · intro d hd
    simp [isLiteralChar,ht d hd]

theorem LexemeClass.isLiteralChar_of_numeral {text : List Char} (h : numeral.Accepts text) :
    ∀ c ∈ text, isLiteralChar c = true := by
  rcases h with ⟨-,hd⟩ | ⟨whole,fraction,rfl,hw,hf⟩
  · exact fun c hc => isLiteralChar_of_isDigit (hd c hc)
  · refine List.forall_mem_append.2 ⟨fun c hc => isLiteralChar_of_isDigit (hw.2 c hc),?_⟩
    refine List.forall_mem_cons.2 ⟨rfl,?_⟩
    exact fun c hc => isLiteralChar_of_isDigit (hf.2 c hc)

namespace Token

variable {t u : Token}

theorem IsSpelt.fixedText? (h : t.IsSpelt) (hl : t.isLiteral = false) :
    t.kind.fixedText? = some t.text := by
  obtain ⟨⟨cls,text⟩,ha,ht⟩ := h
  obtain ⟨hk,ht⟩ := Lexeme.token?_eq_some_iff.1 ht
  obtain ⟨kind,written⟩ := t
  obtain rfl : written = String.ofList text := ht
  cases hk with
  | letWord => rfl
  | printWord => rfl
  | name | number => simp [isLiteral,TokenKind.isLiteral] at hl
  | mark =>
    obtain ⟨c,rfl,hc⟩ := ha
    exact TokenKind.fixedText?_of_mem_marks hc

theorem IsSpelt.isLiteralChar (h : t.IsSpelt) (hl : t.isLiteral = true) :
    ∀ c ∈ t.text.toList, isLiteralChar c = true := by
  cases hk : t.kind with
  | ident => exact LexemeClass.isLiteralChar_of_word ((isSpelt_iff_of_ident hk).1 h).1
  | number => exact LexemeClass.isLiteralChar_of_numeral ((isSpelt_iff_of_number hk).1 h)
  | _ => simp [isLiteral,hk,TokenKind.isLiteral] at hl

theorem IsSpelt.not_reserved (h : t.IsSpelt) (hk : t.kind = .ident) :
    TokenKind.ofReserved? t.text = none := by
  obtain ⟨-,hlet,hprint⟩ := (isSpelt_iff_of_ident hk).1 h
  rw [TokenKind.ofReserved?,if_neg hlet,if_neg hprint]

theorem toList_display (t : Token) :
    t.display.toList = t.kind.name.toList ++
      ' ' :: '(' :: ((if t.isLiteral then t.text else "").toList ++ [')']) := by
  simp [display]

/-- The name of the kind ends at the first blank. -/
theorem kind_eq_of_display_eq (h : t.display = u.display) : t.kind = u.kind := by
  have hrun : ∀ t : Token, t.display.toList.takeWhile (· ≠ ' ') = t.kind.name.toList := by
    intro t
    rw [toList_display]
    refine takeWhile_append_of_boundary ?_ (by simp)
    simpa using fun c hc => ne_of_mem_of_not_mem hc t.kind.blank_not_mem_name
  have hn := hrun t
  rw [h,hrun u] at hn
  exact TokenKind.name_injective (String.toList_inj.1 hn.symm)

theorem eq_of_display_eq (ht : t.IsSpelt) (hu : u.IsSpelt) (h : t.display = u.display) : t = u := by
  have hk := kind_eq_of_display_eq h
  have hl : t.isLiteral = u.isLiteral := by rw [isLiteral,isLiteral,hk]
  have htext : t.text = u.text := by
    cases hlit : u.isLiteral with
    | true =>
      rw [← String.toList_inj,toList_display,toList_display,hk,hl,hlit] at h
      exact String.toList_inj.1 (by simpa using h)
    | false =>
      have hf := ht.fixedText? (hl.trans hlit)
      rw [hk,hu.fixedText? hlit] at hf
      exact (Option.some.inj hf).symm
  cases t; cases u
  simp_all

theorem eq_of_map_display_eq {ts us : List Token} (ht : ∀ t ∈ ts, t.IsSpelt)
    (hu : ∀ u ∈ us, u.IsSpelt) (h : ts.map display = us.map display) : ts = us := by
  induction ts generalizing us with
  | nil => exact (List.map_eq_nil_iff.1 h.symm).symm
  | cons t ts ih =>
    cases us with
    | nil => cases h
    | cons u us =>
      rw [List.forall_mem_cons] at ht hu
      obtain ⟨hd,hds⟩ := List.cons.inj h
      rw [eq_of_display_eq ht.1 hu.1 hd,ih ht.2 hu.2 hds]

end Token

namespace CommandLine

theorem map_display_eq_of_tokenLines_eq {index : Nat} {ts us : List Token}
    (h : tokenLines index ts = tokenLines index us) :
    ts.map Token.display = us.map Token.display := by
  induction ts generalizing us index with
  | nil =>
    cases us with
    | nil => rfl
    | cons u us => cases h
  | cons t ts ih =>
    cases us with
    | nil => cases h
    | cons u us =>
      obtain ⟨hl,hls⟩ := List.cons.inj h
      rw [List.map_cons,List.map_cons,(String.append_right_inj _).1 hl,ih hls]

theorem isOneLine_of_mem_tokenLines {index : Nat} {ts : List Token} (h : ∀ t ∈ ts, t.IsSpelt)
    {line : String} (hl : line ∈ tokenLines index ts) : isOneLine line = true := by
  rw [tokenLines_eq_mapIdx] at hl
  obtain ⟨i,hi,rfl⟩ := List.mem_mapIdx.1 hl
  exact isOneLine_tokenLine _ (h _ (List.getElem_mem hi))

theorem eq_of_tokenList_eq {ts us : List Token} (ht : ∀ t ∈ ts, t.IsSpelt)
    (hu : ∀ u ∈ us, u.IsSpelt) (h : tokenList ts = tokenList us) : ts = us := by
  have hl := eq_of_ofLines_eq (fun _ => isOneLine_of_mem_tokenLines ht)
    (fun _ => isOneLine_of_mem_tokenLines hu) h
  exact Token.eq_of_map_display_eq ht hu (map_display_eq_of_tokenLines_eq hl)

theorem listing_of_tokenize {source : String} {ts : List Token}
    (h : (tokenize source).result = .ok ts) : Outcome.listing true source = tokenList ts := by
  simp [Outcome.listing,h]

/-- Two texts that have tokens have the same tokens if these are displayed alike, and also if the
numbered lists of them are alike. For a token that is no literal has the only text of its kind, no
identifier has the text of a keyword, and literals have only characters of words and numerals. -/
theorem listing_tells_tokens {a b : String} {ts us : List Token}
    (ha : (tokenize a).result = .ok ts) (hb : (tokenize b).result = .ok us) :
    (ts.map Token.display = us.map Token.display ↔ ts = us) ∧
    (Outcome.listing true a = Outcome.listing true b ↔ ts = us) ∧
    ∀ t ∈ ts, (t.isLiteral = false → t.kind.fixedText? = some t.text) ∧
      (t.kind = .ident → TokenKind.ofReserved? t.text = none) ∧
      (t.isLiteral = true → ∀ c ∈ t.text.toList, isLiteralChar c = true) := by
  have ht : ∀ t ∈ ts, t.IsSpelt := fun _ => Token.isSpelt_of_tokenize ha
  have hu : ∀ u ∈ us, u.IsSpelt := fun _ => Token.isSpelt_of_tokenize hb
  rw [listing_of_tokenize ha,listing_of_tokenize hb]
  refine ⟨⟨Token.eq_of_map_display_eq ht hu,fun h => by rw [h]⟩,
    ⟨eq_of_tokenList_eq ht hu,fun h => by rw [h]⟩,?_⟩
  intro t hm
  exact ⟨(ht t hm).fixedText?,(ht t hm).not_reserved,(ht t hm).isLiteralChar⟩

/-- A blank inside a name makes two names of it, and two lines of the list. -/
theorem listing_tells_tokens_apart :
    Outcome.listing true "print x1" ≠ Outcome.listing true "print x 1" := by
  have ha : (tokenize "print x1").result = .ok [⟨.printKeyword,"print"⟩,⟨.ident,"x1"⟩] :=
    @result_tokenize_intercalate [⟨.printKeyword,"print"⟩,⟨.ident,"x1"⟩] (by decide)
  have hb : (tokenize "print x 1").result =
      .ok [⟨.printKeyword,"print"⟩,⟨.ident,"x"⟩,⟨.number,"1"⟩] :=
    @result_tokenize_intercalate [⟨.printKeyword,"print"⟩,⟨.ident,"x"⟩,⟨.number,"1"⟩] (by decide)
  exact mt (listing_tells_tokens ha hb).2.1.1 (by simp)

end CommandLine

end LetPrint
