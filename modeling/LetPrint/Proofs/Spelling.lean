import LetPrint.Operator
import LetPrint.Proofs.MaximalMunch

set_option autoImplicit false

namespace LetPrint

def IsName (text : String) : Prop :=
  LexemeClass.word.Accepts text.toList ∧ text ≠ "let" ∧ text ≠ "print"

/-- The token of some lexeme whose text belongs to its class. -/
def Token.IsSpelt (t : Token) : Prop :=
  ∃ l : Lexeme, l.cls.Accepts l.text ∧ l.token? = some t

namespace Lexeme

theorem scan_nil : scan [] = ([],[]) := scan_of_none rfl

theorem accepts_of_mem_scan {cs : List Char} {l : Lexeme} (h : l ∈ (scan cs).1) :
    l.cls.Accepts l.text := by
  fun_induction scan cs with
  | case1 cs hn => simp at h
  | case2 cs first rest hn _ more ih =>
    rcases List.mem_cons.1 h with rfl | h
    · exact accepts_of_next? hn
    · exact ih h

theorem text_of_token? {l : Lexeme} {t : Token} (h : l.token? = some t) :
    t.text.toList = l.text := by
  rw [(token?_eq_some_iff.1 h).2,String.toList_ofList]

theorem continuesWith_space {l : Lexeme} {t : Token} (h : l.token? = some t) :
    l.cls.continuesWith ' ' = false := by
  obtain ⟨cls,text⟩ := l
  cases cls with
  | blank | comment => simp [token?] at h
  | word | numeral | mark kind => rfl

theorem not_isBlank_of_token? {l : Lexeme} {t : Token} {c : Char} {cs : List Char}
    (ha : l.cls.Accepts l.text) (h : l.token? = some t) (hc : l.text = c :: cs) :
    Text.isBlank c = false := by
  by_contra hb
  have hn := next?_of_accepts ha
  rw [hc,next?_of_isBlank (Bool.not_eq_false _ ▸ hb)] at hn
  have hcls : l.cls = .blank := by simp_all
  simp [token?,hcls] at h

end Lexeme

namespace Token

theorem isSpelt_of_tokenize {source : String} {ts : List Token} {t : Token}
    (h : (tokenize source).result = .ok ts) (ht : t ∈ ts) : t.IsSpelt := by
  rw [result_tokenize] at h
  split at h
  · cases h
    obtain ⟨l,hl,hlt⟩ := List.mem_filterMap.1 ht
    exact ⟨l,Lexeme.accepts_of_mem_scan hl,hlt⟩
  · cases h

theorem IsSpelt.exists_text {t : Token} (h : t.IsSpelt) :
    ∃ c cs, t.text.toList = c :: cs ∧ Text.isBlank c = false := by
  obtain ⟨l,ha,hl⟩ := h
  obtain ⟨c,cs,hc⟩ := List.exists_cons_of_ne_nil (LexemeClass.ne_nil_of_accepts ha)
  exact ⟨c,cs,(Lexeme.text_of_token? hl).trans hc,Lexeme.not_isBlank_of_token? ha hl hc⟩

theorem scan_intercalate {ts : List Token} (h : ∀ t ∈ ts, t.IsSpelt) :
    (Lexeme.scan ([' '].intercalate (ts.map fun t => t.text.toList))).2 = [] ∧
      (Lexeme.scan ([' '].intercalate (ts.map fun t => t.text.toList))).1.filterMap
        Lexeme.token? = ts := by
  induction ts with
  | nil => simp [Lexeme.scan_nil]
  | cons t ts ih =>
    obtain ⟨l,ha,hl⟩ := h t (by simp)
    obtain ⟨hs,hts⟩ := ih fun u hu => h u (by simp [hu])
    rw [List.map_cons,Lexeme.text_of_token? hl]
    cases ts with
    | nil =>
      have hn := Lexeme.next?_of_accepts ha
      simp [Lexeme.scan_of_some hn,Lexeme.scan_nil,hl]
    | cons u us =>
      -- the space ends the lexeme, and the next token ends the blank
      obtain ⟨c,cs,hc,hb⟩ := (h u (by simp)).exists_text
      obtain ⟨more,hm⟩ : ∃ more,
          [' '].intercalate ((u :: us).map fun t => t.text.toList) = c :: more := by
        cases us <;> simp [hc]
      have hn : Lexeme.next? (l.text ++ ' ' :: c :: more) = some (l,' ' :: c :: more) :=
        Lexeme.next?_append ha (by simpa using Lexeme.continuesWith_space hl)
      have hsp : Lexeme.next? (' ' :: c :: more) = some (⟨.blank,[' ']⟩,c :: more) :=
        @Lexeme.next?_append .blank [' '] (c :: more) ⟨by simp,List.all_eq_true.1 rfl⟩
          (by simpa [LexemeClass.continuesWith] using hb)
      rw [List.intercalate_cons_of_ne_nil (by simp),hm,List.append_assoc,List.singleton_append,
        Lexeme.scan_of_some hn,Lexeme.scan_of_some hsp]
      rw [hm] at hs hts
      exact ⟨hs,by rw [List.filterMap_cons_some hl,List.filterMap_cons_none rfl,hts]⟩

theorem isSpelt_mark {c : Char} {kind : TokenKind} (h : (c,kind) ∈ marks) :
    (⟨kind,String.ofList [c]⟩ : Token).IsSpelt :=
  ⟨⟨.mark kind,[c]⟩,⟨c,rfl,h⟩,rfl⟩

theorem isSpelt_let : (⟨.letKeyword,"let"⟩ : Token).IsSpelt :=
  ⟨⟨.word,['l','e','t']⟩,⟨'l',['e','t'],rfl,rfl,List.all_eq_true.1 rfl⟩,rfl⟩

theorem isSpelt_print : (⟨.printKeyword,"print"⟩ : Token).IsSpelt :=
  ⟨⟨.word,['p','r','i','n','t']⟩,⟨'p',['r','i','n','t'],rfl,rfl,List.all_eq_true.1 rfl⟩,rfl⟩

theorem isSpelt_operator (op : BinaryOperator) : (⟨op.kind,op.symbol⟩ : Token).IsSpelt := by
  cases op with
  | add => exact isSpelt_mark (show ('+',TokenKind.plus) ∈ marks by decide)
  | subtract => exact isSpelt_mark (show ('-',TokenKind.minus) ∈ marks by decide)
  | multiply => exact isSpelt_mark (show ('*',TokenKind.mul) ∈ marks by decide)
  | divide => exact isSpelt_mark (show ('/',TokenKind.div) ∈ marks by decide)

theorem isSpelt_iff {t : Token} :
    t.IsSpelt ↔ ∃ cls : LexemeClass, cls.Accepts t.text.toList ∧
      Lexeme.HasKind ⟨cls,t.text.toList⟩ t.kind := by
  refine ⟨?_,?_⟩
  · intro h
    obtain ⟨⟨cls,text⟩,ha,hl⟩ := h
    obtain ⟨hk,ht⟩ := Lexeme.token?_eq_some_iff.1 hl
    rw [ht,String.toList_ofList]
    exact ⟨cls,ha,hk⟩
  · intro h
    obtain ⟨cls,ha,hk⟩ := h
    exact ⟨⟨cls,t.text.toList⟩,ha,Lexeme.token?_eq_some_iff.2 ⟨hk,String.ofList_toList.symm⟩⟩

theorem isSpelt_iff_next? {t : Token} :
    t.IsSpelt ↔ ∃ l, Lexeme.next? t.text.toList = some (l,[]) ∧ l.token? = some t := by
  refine ⟨?_,?_⟩
  · intro h
    obtain ⟨l,ha,hl⟩ := h
    rw [Lexeme.text_of_token? hl]
    exact ⟨l,Lexeme.next?_of_accepts ha,hl⟩
  · intro h
    obtain ⟨l,hn,hl⟩ := h
    exact ⟨l,Lexeme.accepts_of_next? hn,hl⟩

instance (t : Token) : Decidable t.IsSpelt :=
  decidable_of_iff ((Lexeme.next? t.text.toList).any fun n => n.2 = [] ∧ n.1.token? = some t) <| by
    rw [isSpelt_iff_next?,Option.any_eq_true]
    simp

theorem isSpelt_iff_of_ident {t : Token} (h : t.kind = .ident) : t.IsSpelt ↔ IsName t.text := by
  rw [isSpelt_iff,h]
  refine ⟨?_,?_⟩
  · intro h
    obtain ⟨cls,ha,hk⟩ := h
    cases cls with
    | word =>
      refine ⟨ha,?_,?_⟩
      · intro ht
        rw [ht] at hk
        cases hk with
        | name hlet => exact hlet rfl
      · intro ht
        rw [ht] at hk
        cases hk with
        | name _ hprint => exact hprint rfl
    | mark kind =>
      obtain ⟨c,-,hm⟩ := ha
      rw [← Lexeme.hasKind_mark_iff.1 hk] at hm
      simp [marks] at hm
    | numeral | blank | comment => simp at hk
  · intro h
    obtain ⟨ha,hlet,hprint⟩ := h
    refine ⟨.word,ha,.name ?_ ?_⟩
    · exact fun h => hlet (String.toList_inj.1 h)
    · exact fun h => hprint (String.toList_inj.1 h)

theorem isSpelt_iff_of_number {t : Token} (h : t.kind = .number) :
    t.IsSpelt ↔ LexemeClass.numeral.Accepts t.text.toList := by
  rw [isSpelt_iff,h]
  refine ⟨?_,?_⟩
  · intro h
    obtain ⟨cls,ha,hk⟩ := h
    cases cls with
    | numeral => exact ha
    | mark kind =>
      obtain ⟨c,-,hm⟩ := ha
      rw [← Lexeme.hasKind_mark_iff.1 hk] at hm
      simp [marks] at hm
    | word =>
      generalize t.text.toList = text at hk
      cases hk
    | blank | comment => simp at hk
  · intro h
    exact ⟨.numeral,h,.number⟩

end Token

theorem result_tokenize_intercalate {ts : List Token} (h : ∀ t ∈ ts, t.IsSpelt) :
    (tokenize (" ".intercalate (ts.map Token.text))).result = .ok ts := by
  have hs := Token.scan_intercalate h
  have hj : (" ".intercalate (ts.map Token.text)).toList =
      [' '].intercalate (ts.map fun t => t.text.toList) := by
    rw [String.toList_intercalate,List.map_map]; rfl
  rw [result_tokenize,hj,hs.1,hs.2]

end LetPrint
