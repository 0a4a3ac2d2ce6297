import LetPrint.Proofs.Acceptance
import LetPrint.Proofs.Numerals
import LetPrint.Proofs.Printing
import LetPrint.Proofs.Spelling
import LetPrint.Proofs.Statements

set_option autoImplicit false

namespace LetPrint

structure Program.Printable (w : Binary64 → String) (p : Program) : Prop where
  body_ne_nil : p.body ≠ []
  defined : ∀ name value, .define name value ∈ p.body → IsName name
  used : ∀ name, .identifier name ∈ p.leaves → IsName name
  numbers : ∀ x, .number x ∈ p.leaves → x.isFinite = true ∧ x.negative = false
  nesting : peak (p.tokens w) ≤ nestingLimit

/-- The number is written as a numeral that is read as the number. -/
def WritesBack (w : Binary64 → String) (x : Binary64) : Prop :=
  LexemeClass.numeral.Accepts (w x).toList ∧ Binary64.read? (w x) = some x

/-- All numbers that programs have in them can be written at once. -/
theorem exists_writer :
    ∃ w, ∀ x : Binary64, x.isFinite = true → x.negative = false → WritesBack w x := by
  have h : ∀ x : Binary64, ∃ text : String, x.isFinite = true → x.negative = false →
      LexemeClass.numeral.Accepts text.toList ∧ Binary64.read? text = some x := by
    intro x
    by_cases hx : x.isFinite = true ∧ x.negative = false
    · obtain ⟨text,ht⟩ := Binary64.exists_numeral hx.1 hx.2
      exact ⟨text,fun _ _ => ht⟩
    · exact ⟨"",fun hf hn => absurd ⟨hf,hn⟩ hx⟩
  exact Classical.skolem.1 h

section Printed

variable {w : Binary64 → String}

theorem result_parseExpr_tokens {e : Expr}
    (hx : ∀ x, .number x ∈ e.leaves → x.isFinite = true ∧ WritesBack w x)
    (hp : peak (e.tokens w) ≤ nestingLimit) : (parseExpr (e.tokens w)).result = .ok e := by
  rw [parseExpr,result_parseExprAt_eq_ok_iff]
  refine ⟨Expr.derives_tokens ?_ e.fits_sum,by simpa using hp⟩
  intro leaf hm t ht
  rcases Expr.cases_of_mem_leaves hm ht with ⟨x,rfl,rfl⟩ | ⟨name,rfl,rfl⟩
  · obtain ⟨hf,-,hr⟩ := hx x hm
    simp [parsePrimary,hr,hf]
  · rfl

theorem Stmt.kind_of_mem_tokens {s : Stmt} {t : Token} (h : t ∈ s.tokens w) :
    t.kind ≠ .semicolon := by
  have hv : ∀ t ∈ s.value.tokens w, t.kind ≠ .semicolon := by
    refine Expr.forall_mem_tokens ?_ (by decide) (by decide) ?_
    · intro op
      cases op <;> decide
    · intro leaf hm t ht
      rcases Expr.cases_of_mem_leaves hm ht with ⟨x,-,rfl⟩ | ⟨name,-,rfl⟩
      · exact nofun
      · exact nofun
  rcases cases_of_mem_tokens h with rfl | rfl | rfl | ⟨name,value,-,rfl⟩ | h
  · exact nofun
  · exact nofun
  · exact nofun
  · exact nofun
  · exact hv t h

theorem result_parseStatement_tokens {s : Stmt}
    (h : (parseExpr (s.value.tokens w)).result = .ok s.value) :
    (parseStatement (s.tokens w)).result = .ok s := by
  cases s with
  | define name value =>
    refine result_parseStatement_eq_ok_iff.2 ⟨_,_,rfl,.inr ⟨rfl,?_⟩⟩
    exact result_parseDefine_eq_ok_iff.2
      ⟨_,⟨.ident,name⟩,[],⟨.equal,"="⟩,_,value,rfl,rfl,rfl,by simp,h,rfl⟩
  | print value =>
    refine result_parseStatement_eq_ok_iff.2 ⟨_,_,rfl,.inl ⟨rfl,?_⟩⟩
    exact result_parsePrint_eq_ok_iff.2 ⟨value,h,rfl⟩

theorem result_parseProgram_tokens {p : Program} (h : p.Printable w)
    (hw : ∀ x, .number x ∈ p.leaves → WritesBack w x) :
    (parseProgram (p.tokens w)).result = .ok p := by
  have hc : chunks .semicolon none (p.tokens w) = p.body.map fun s => s.tokens w :=
    chunks_flatMap (fun s _ t ht => Stmt.kind_of_mem_tokens ht) rfl
  have hn : p.tokens w ≠ [] := by
    obtain ⟨s,body,hb⟩ := List.exists_cons_of_ne_nil h.body_ne_nil
    simp [Program.tokens,hb]
  rw [result_parseProgram_eq_ok_iff,hc,List.forall₂_map_left_iff,List.forall₂_same]
  refine ⟨hn,?_⟩
  intro s hs
  refine result_parseStatement_tokens (result_parseExpr_tokens ?_ ?_)
  · intro x hx
    have hm : .number x ∈ p.leaves := List.mem_flatMap.2 ⟨s,hs,hx⟩
    exact ⟨(h.numbers x hm).1,hw x hm⟩
  · exact (Program.peak_tokens_le_iff (by decide)).1 h.nesting s hs

theorem isSpelt_of_mem_tokens {p : Program} {t : Token} (h : p.Printable w)
    (hw : ∀ x, .number x ∈ p.leaves → WritesBack w x) (ht : t ∈ p.tokens w) : t.IsSpelt := by
  obtain ⟨s,hs,ht⟩ := List.mem_flatMap.1 ht
  have hv : ∀ t ∈ s.value.tokens w, t.IsSpelt := by
    refine Expr.forall_mem_tokens Token.isSpelt_operator
      (Token.isSpelt_mark (show ('(',TokenKind.lparen) ∈ marks by decide))
      (Token.isSpelt_mark (show (')',TokenKind.rparen) ∈ marks by decide)) ?_
    intro leaf hm t ht
    have hl : leaf ∈ p.leaves := List.mem_flatMap.2 ⟨s,hs,hm⟩
    rcases Expr.cases_of_mem_leaves hm ht with ⟨x,rfl,rfl⟩ | ⟨name,rfl,rfl⟩
    · exact (Token.isSpelt_iff_of_number rfl).2 (hw x hl).1
    · exact (Token.isSpelt_iff_of_ident rfl).2 (h.used name hl)
  rcases List.mem_append.1 ht with ht | ht
  · rcases Stmt.cases_of_mem_tokens ht with rfl | rfl | rfl | ⟨name,value,rfl,rfl⟩ | ht
    · exact Token.isSpelt_let
    · exact Token.isSpelt_print
    · exact Token.isSpelt_mark (show ('=',TokenKind.equal) ∈ marks by decide)
    · exact (Token.isSpelt_iff_of_ident rfl).2 (h.defined name value hs)
    · exact hv t ht
  · rw [List.mem_singleton.1 ht]
    exact Token.isSpelt_mark (show (';',TokenKind.semicolon) ∈ marks by decide)

theorem result_parseSource_print {p : Program} (h : p.Printable w)
    (hw : ∀ x, .number x ∈ p.leaves → WritesBack w x) :
    (parseSource (p.print w)).result = .ok p := by
  have ht := result_tokenize_intercalate fun t ht => isSpelt_of_mem_tokens h hw ht
  rw [result_parseSource,Program.print,ht]
  exact result_parseProgram_tokens h hw

end Printed

section Read

theorem isName_or_number_of_parsePrimary {t : Token} {leaf : Expr} (hs : t.IsSpelt)
    (h : parsePrimary t = .ok leaf) :
    (∀ name, leaf = .identifier name → IsName name) ∧
      ∀ x, leaf = .number x → x.isFinite = true ∧ x.negative = false := by
  obtain ⟨hd,hf⟩ := parsePrimary_eq_ok_iff.1 h
  cases hd with
  | @number x hk hx =>
    refine ⟨nofun,?_⟩
    intro y hy
    cases hy
    obtain ⟨y,hy,hfin⟩ := hf hk
    obtain rfl := Option.some.inj (hx.symm.trans hy)
    exact ⟨hfin,Binary64.negative_of_read? ((Token.isSpelt_iff_of_number hk).1 hs) hx⟩
  | identifier hk =>
    refine ⟨?_,nofun⟩
    intro name hn
    cases hn
    exact (Token.isSpelt_iff_of_ident hk).1 hs

theorem tier?_of_parsePrimary (t : Token) (e : Expr) (h : parsePrimary t = .ok e) :
    e.tier? = none := by
  obtain ⟨hd,-⟩ := parsePrimary_eq_ok_iff.1 h
  cases hd <;> rfl

theorem peak_tokens_le_of_result_parseExpr {ts : List Token} {e : Expr}
    (h : (parseExpr ts).result = .ok e) (w : Binary64 → String) :
    peak (e.tokens w) ≤ nestingLimit := by
  obtain ⟨hd,hp⟩ := result_parseExprAt_eq_ok_iff.1 h
  have hle : peak (e.operand w .sum) ≤ peak ts := Expr.peak_operand_le tier?_of_parsePrimary hd
  rw [Expr.operand_of_fits e.fits_sum] at hle
  omega

theorem exists_token_of_mem_leaves {ts : List Token} {e leaf : Expr}
    (h : (parseExpr ts).result = .ok e) (hm : leaf ∈ e.leaves) :
    ∃ t ∈ ts, parsePrimary t = .ok leaf :=
  Expr.exists_of_mem_leaves tier?_of_parsePrimary (result_parseExprAt_eq_ok_iff.1 h).1 hm

theorem printable_of_result_parseProgram {ts : List Token} {p : Program}
    (hts : ∀ t ∈ ts, t.IsSpelt) (h : (parseProgram ts).result = .ok p) (w : Binary64 → String) :
    p.Printable w := by
  have hbody : ∀ s ∈ p.body,
      (∃ rest, rest ⊆ ts ∧ (parseExpr rest).result = .ok s.value) ∧
        ∀ name value, s = .define name value → ∃ t ∈ ts, t.kind = .ident ∧ t.text = name := by
    intro s hs
    obtain ⟨piece,hp,hr⟩ := exists_subset_of_result_parseProgram h hs
    obtain ⟨⟨rest,hsub,hv⟩,hname⟩ := parts_of_result_parseStatement hr
    refine ⟨⟨rest,List.Subset.trans hsub hp,hv⟩,?_⟩
    intro name value hd
    obtain ⟨t,ht,hk⟩ := hname name value hd
    exact ⟨t,hp ht,hk⟩
  have hleaf : ∀ leaf ∈ p.leaves, (∀ name, leaf = .identifier name → IsName name) ∧
      ∀ x, leaf = .number x → x.isFinite = true ∧ x.negative = false := by
    intro leaf hm
    obtain ⟨s,hs,hm⟩ := List.mem_flatMap.1 hm
    obtain ⟨⟨rest,hsub,hv⟩,-⟩ := hbody s hs
    obtain ⟨t,ht,hr⟩ := exists_token_of_mem_leaves hv hm
    exact isName_or_number_of_parsePrimary (hts t (hsub ht)) hr
  refine ⟨body_ne_nil_of_result_parseProgram h,?_,?_,?_,?_⟩
  · intro name value hs
    obtain ⟨-,hname⟩ := hbody _ hs
    obtain ⟨t,ht,hk,rfl⟩ := hname name value rfl
    exact (Token.isSpelt_iff_of_ident hk).1 (hts t ht)
  · intro name hm
    exact (hleaf _ hm).1 name rfl
  · intro x hm
    exact (hleaf _ hm).2 x rfl
  · rw [Program.peak_tokens_le_iff (by decide)]
    intro s hs
    obtain ⟨⟨rest,-,hv⟩,-⟩ := hbody s hs
    exact peak_tokens_le_of_result_parseExpr hv w

theorem printable_of_result_parseSource {source : String} {p : Program}
    (h : (parseSource source).result = .ok p) (w : Binary64 → String) : p.Printable w := by
  rw [result_parseSource] at h
  cases hts : (tokenize source).result with
  | error e => rw [hts] at h; cases h
  | ok ts =>
    rw [hts] at h
    exact printable_of_result_parseProgram (fun t ht => Token.isSpelt_of_tokenize hts ht) h w

end Read

/-- Every printable program is read back from its text, and every program that is read from a source
is printable, whatever numerals its numbers are written as. -/
theorem parseSource_print (w : Binary64 → String) :
    (∀ p : Program, p.Printable w → (∀ x, .number x ∈ p.leaves → WritesBack w x) →
      (parseSource (p.print w)).result = .ok p) ∧
    ∀ source p, (parseSource source).result = .ok p → p.Printable w ∧
      ((∀ x, .number x ∈ p.leaves → WritesBack w x) →
        (parseSource (p.print w)).result = .ok p) := by
  refine ⟨fun p hp hw => result_parseSource_print hp hw,?_⟩
  intro source p h
  have hp := printable_of_result_parseSource h w
  exact ⟨hp,result_parseSource_print hp⟩

/-- A sum as a left factor needs its parentheses. -/
theorem parseSource_print_factor :
    (parseSource "let a = ( 1 + b ) * a ;").result = .ok ⟨[.define "a" (.binary .multiply
      (.binary .add (.number (.ofDecimal false ⟨1,0⟩)) (.identifier "b")) (.identifier "a"))]⟩ := by
  obtain ⟨value,hvalue⟩ : ∃ value : Expr, value = .binary .multiply (.binary .add
    (.number (.ofDecimal false ⟨1,0⟩)) (.identifier "b")) (.identifier "a") := ⟨_,rfl⟩
  obtain ⟨p,hp⟩ : ∃ p : Program, p = ⟨[.define "a" value]⟩ := ⟨_,rfl⟩
  have htext : p.print (fun _ => "1") = "let a = ( 1 + b ) * a ;" := by
    rw [hp,hvalue]; decide
  have ha : IsName "a" := ⟨⟨'a',[],rfl,by decide,by simp⟩,by decide,by decide⟩
  have hb : IsName "b" := ⟨⟨'b',[],rfl,by decide,by simp⟩,by decide,by decide⟩
  have hleaves : p.leaves =
      [.number (.ofDecimal false ⟨1,0⟩),.identifier "b",.identifier "a"] := by
    rw [hp,hvalue]; rfl
  have hprintable : p.Printable fun _ => "1" := by
    refine ⟨by simp [hp],?_,?_,?_,by rw [hp,hvalue]; decide⟩
    · intro name value h
      obtain ⟨rfl,-⟩ : name = "a" ∧ _ := by simpa [hp] using h
      exact ha
    · intro name h
      have h : name = "b" ∨ name = "a" := by simpa [hleaves] using h
      rcases h with rfl | rfl
      · exact hb
      · exact ha
    · intro x h
      obtain rfl : x = .ofDecimal false ⟨1,0⟩ := by simpa [hleaves] using h
      exact ⟨by decide +kernel,rfl⟩
  have hwrites : ∀ x, .number x ∈ p.leaves → WritesBack (fun _ => "1") x := by
    intro x h
    obtain rfl : x = .ofDecimal false ⟨1,0⟩ := by simpa [hleaves] using h
    exact ⟨.inl ⟨by simp,by simp⟩,by decide +kernel⟩
  rw [← htext,← hvalue,← hp]
  exact (parseSource_print fun _ => "1").1 p hprintable hwrites

end LetPrint
