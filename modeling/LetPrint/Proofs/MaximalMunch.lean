import LetPrint.Proofs.LexemeClasses
import LetPrint.Tokenize

/-!
The tokenizer is maximal munch. A text is cut into the longest texts of any class that its rest
starts with; the classes are disjoint, so the cut is unique, and it is the one the scan makes
although the scan takes the first class that applies. The tokens are read off the lexemes.
-/

set_option autoImplicit false

namespace LetPrint

namespace LexemeClass

theorem ne_nil_of_accepts {cls : LexemeClass} {text : List Char} (h : cls.Accepts text) :
    text ≠ [] := by
  cases cls with
  | word => obtain ⟨c,tail,rfl,-⟩ := h; simp
  | numeral =>
    rcases h with ⟨hn,-⟩ | ⟨whole,fraction,rfl,-⟩
    · exact hn
    · simp
  | blank => exact h.1
  | comment => obtain ⟨tail,rfl,-⟩ := h; simp
  | mark kind => obtain ⟨c,rfl,-⟩ := h; simp

theorem eq_of_accepts {cls cls' : LexemeClass} {text : List Char} (h : cls.Accepts text)
    (h' : cls'.Accepts text) : cls = cls' := by
  have he := Lexeme.next?_of_accepts h
  have he' := Lexeme.next?_of_accepts h'
  rw [he] at he'
  cases he'
  rfl

end LexemeClass

theorem accepts_splitNumeral {c : Char} {cs : List Char} (h : c.isDigit = true) :
    LexemeClass.numeral.Accepts (splitNumeral (c :: cs)).1 := by
  have hw : IsDigits ((c :: cs).takeWhile Char.isDigit) := by
    exact ⟨by simp [h],List.all_eq_true.1 List.all_takeWhile⟩
  have hd : LexemeClass.numeral.Accepts ((c :: cs).takeWhile Char.isDigit) := .inl hw
  unfold splitNumeral splitFraction
  split
  · rename_i fraction _
    by_cases hn : fraction.takeWhile Char.isDigit = []
    · simpa [hn] using hd
    · rw [if_neg hn]
      exact .inr ⟨_,_,rfl,hw,hn,List.all_eq_true.1 List.all_takeWhile⟩
  · simpa using hd

namespace Lexeme

theorem accepts_of_next? {cs rest : List Char} {l : Lexeme} (h : next? cs = some (l,rest)) :
    l.cls.Accepts l.text := by
  unfold next? at h
  split at h
  · cases h
  · rename_i c cs
    split at h
    · rename_i hw
      cases h
      exact ⟨c,_,rfl,hw,List.all_eq_true.1 List.all_takeWhile⟩
    · split at h
      · rename_i hd
        cases h
        exact accepts_splitNumeral hd
      · split at h
        · rename_i hb
          cases h
          refine ⟨by simp,?_⟩
          intro d hd
          rcases List.mem_cons.1 hd with rfl | hd
          · exact hb
          · exact List.all_eq_true.1 List.all_takeWhile d hd
        · split at h
          · rename_i hs
            obtain ⟨rfl,hs⟩ := hs
            obtain ⟨more,rfl⟩ := List.head?_eq_some_iff.1 hs
            cases h
            refine ⟨more.takeWhile (· ≠ '\n'),by simp,?_⟩
            intro d hd
            simpa using List.all_eq_true.1 List.all_takeWhile d hd
          · obtain ⟨kind,hm,hk⟩ := Option.map_eq_some_iff.1 h
            cases hk
            exact ⟨c,rfl,ofMark?_eq_some_iff.1 hm⟩

/-- A text of a class at the start of `cs` that no text of any class there outruns. -/
structure IsLongest (cs : List Char) (l : Lexeme) : Prop where
  accepted : l.cls.Accepts l.text
  starts : l.text <+: cs
  longest : ∀ cls text, LexemeClass.Accepts cls text → text <+: cs → text.length ≤ l.text.length

theorem isLongest_of_next? {cs rest : List Char} {l : Lexeme} (h : next? cs = some (l,rest)) :
    IsLongest cs l := by
  refine ⟨accepts_of_next? h,⟨rest,text_append_of_next? h⟩,?_⟩
  intro cls text ha hp
  obtain ⟨more,rfl⟩ := hp
  obtain ⟨l',left,hl,hp⟩ := exists_next?_of_accepts more ha
  rw [h] at hl
  cases hl
  exact hp.length_le

theorem IsLongest.next? {l : Lexeme} {rest : List Char} (h : IsLongest (l.text ++ rest) l) :
    next? (l.text ++ rest) = some (l,rest) := by
  obtain ⟨l',left,hl,hp⟩ := exists_next?_of_accepts rest h.accepted
  have hl' := isLongest_of_next? hl
  have ht : l.text = l'.text := hp.eq_of_length_le (h.longest _ _ hl'.accepted hl'.starts)
  have hc : l.cls = l'.cls := LexemeClass.eq_of_accepts h.accepted (ht ▸ hl'.accepted)
  obtain rfl : l = l' := by
    cases l; cases l'
    simp_all
  have hr : left = rest := List.append_cancel_left (text_append_of_next? hl)
  rw [hl,hr]

theorem next?_eq_none_iff {cs : List Char} :
    next? cs = none ↔ ∀ cls text, LexemeClass.Accepts cls text → ¬ text <+: cs := by
  refine ⟨?_,?_⟩
  · intro h cls text ha hp
    obtain ⟨more,rfl⟩ := hp
    obtain ⟨l,left,hl,-⟩ := exists_next?_of_accepts more ha
    simp [h] at hl
  · intro h
    cases hn : next? cs with
    | none => rfl
    | some next =>
      have hl := isLongest_of_next? hn
      exact absurd hl.starts (h _ _ hl.accepted)

/-- The cuts of a text into longest lexemes, with the rest of it where no lexeme starts. -/
inductive Munch : List Char → List Lexeme → List Char → Prop where
  | stop {cs : List Char} :
      (∀ cls text, LexemeClass.Accepts cls text → ¬ text <+: cs) → Munch cs [] cs
  | lexeme {l : Lexeme} {rest left : List Char} {ls : List Lexeme} :
      IsLongest (l.text ++ rest) l → Munch rest ls left → Munch (l.text ++ rest) (l :: ls) left

theorem munch_scan (cs : List Char) : Munch cs (scan cs).1 (scan cs).2 := by
  fun_induction scan cs with
  | case1 cs h => exact .stop (next?_eq_none_iff.1 h)
  | case2 cs l rest h _ more ih =>
    have hl := isLongest_of_next? h
    rw [← text_append_of_next? h] at hl ⊢
    exact .lexeme hl ih

theorem munch_iff {cs left : List Char} {ls : List Lexeme} :
    Munch cs ls left ↔ ls = (scan cs).1 ∧ left = (scan cs).2 := by
  refine ⟨?_,?_⟩
  · intro h
    induction h with
    | stop hn => simp [scan_of_none (next?_eq_none_iff.2 hn)]
    | lexeme hl _ ih => simp [scan_of_some hl.next?,ih]
  · intro h
    rw [h.1,h.2]
    exact munch_scan cs

inductive HasKind : Lexeme → TokenKind → Prop where
  | letWord : HasKind ⟨.word,['l','e','t']⟩ .letKeyword
  | printWord : HasKind ⟨.word,['p','r','i','n','t']⟩ .printKeyword
  | name {text : List Char} :
      text ≠ ['l','e','t'] → text ≠ ['p','r','i','n','t'] → HasKind ⟨.word,text⟩ .ident
  | number {text : List Char} : HasKind ⟨.numeral,text⟩ .number
  | mark {kind : TokenKind} {text : List Char} : HasKind ⟨.mark kind,text⟩ kind

/-- Blanks and comments spell nothing, every other lexeme the token of its kind and text. -/
inductive Spells : List Lexeme → List Token → Prop where
  | nil : Spells [] []
  | skip {l : Lexeme} {ls : List Lexeme} {ts : List Token} :
      l.cls = .blank ∨ l.cls = .comment → Spells ls ts → Spells (l :: ls) ts
  | keep {l : Lexeme} {kind : TokenKind} {ls : List Lexeme} {ts : List Token} :
      HasKind l kind → Spells ls ts → Spells (l :: ls) (⟨kind,String.ofList l.text⟩ :: ts)

theorem ofList_eq_iff {text : List Char} {s : String} :
    String.ofList text = s ↔ text = s.toList := by
  rw [← String.toList_inj,String.toList_ofList]

section Kinds

variable {text : List Char} {kind : TokenKind}

@[simp] theorem hasKind_word_iff :
    HasKind ⟨.word,text⟩ kind ↔ kind = TokenKind.ofWord (String.ofList text) := by
  have hl : String.ofList text = "let" ↔ text = ['l','e','t'] := ofList_eq_iff
  have hp : String.ofList text = "print" ↔ text = ['p','r','i','n','t'] := ofList_eq_iff
  simp only [TokenKind.ofWord,TokenKind.ofReserved?,hl,hp]
  refine ⟨?_,?_⟩
  · intro h
    cases h with
    | letWord => rfl
    | printWord => rfl
    | name htl htp => rw [if_neg htl,if_neg htp]; rfl
  · intro h
    subst h
    by_cases htl : text = ['l','e','t']
    · rw [if_pos htl,htl]; exact .letWord
    · by_cases htp : text = ['p','r','i','n','t']
      · rw [if_neg htl,if_pos htp,htp]; exact .printWord
      · rw [if_neg htl,if_neg htp]; exact .name htl htp

@[simp] theorem hasKind_numeral_iff : HasKind ⟨.numeral,text⟩ kind ↔ kind = .number := by
  refine ⟨?_,?_⟩
  · intro h
    cases h; rfl
  · intro h
    subst h
    exact .number

@[simp] theorem hasKind_mark_iff {mark : TokenKind} :
    HasKind ⟨.mark mark,text⟩ kind ↔ kind = mark := by
  refine ⟨?_,?_⟩
  · intro h
    cases h; rfl
  · intro h
    subst h
    exact .mark

@[simp] theorem not_hasKind_blank : ¬ HasKind ⟨.blank,text⟩ kind := nofun

@[simp] theorem not_hasKind_comment : ¬ HasKind ⟨.comment,text⟩ kind := nofun

end Kinds

theorem token?_eq_some_iff {l : Lexeme} {t : Token} :
    l.token? = some t ↔ HasKind l t.kind ∧ t.text = String.ofList l.text := by
  obtain ⟨cls,text⟩ := l
  obtain ⟨kind,written⟩ := t
  cases cls <;>
    simp only [token?,Option.some.injEq,Token.mk.injEq,reduceCtorEq,hasKind_word_iff,
      hasKind_numeral_iff,hasKind_mark_iff,not_hasKind_blank,not_hasKind_comment,false_and]
  all_goals rw [eq_comm,@eq_comm _ written]

theorem token?_eq_none_iff {l : Lexeme} :
    l.token? = none ↔ l.cls = .blank ∨ l.cls = .comment := by
  obtain ⟨cls,text⟩ := l
  cases cls <;> simp [token?]

theorem spells_iff {ls : List Lexeme} {ts : List Token} :
    Spells ls ts ↔ ts = ls.filterMap token? := by
  refine ⟨?_,?_⟩
  · intro h
    induction h with
    | nil => rfl
    | skip hl _ ih => rw [List.filterMap_cons_none (token?_eq_none_iff.2 hl),ih]
    | @keep l kind ls ts hk _ ih =>
      have ht : l.token? = some ⟨kind,String.ofList l.text⟩ := token?_eq_some_iff.2 ⟨hk,rfl⟩
      rw [List.filterMap_cons_some ht,ih]
  · intro h
    subst h
    induction ls with
    | nil => exact .nil
    | cons l ls ih =>
      cases ht : l.token? with
      | none =>
        rw [List.filterMap_cons_none ht]
        exact .skip (token?_eq_none_iff.1 ht) ih
      | some t =>
        obtain ⟨kind,written⟩ := t
        obtain ⟨hk,rfl⟩ := token?_eq_some_iff.1 ht
        rw [List.filterMap_cons_some ht]
        exact .keep hk ih

end Lexeme

/-- A source has one cut into longest lexemes. It is the tokens spelt by the lexemes if the cut
reaches the end, and otherwise the error at the first character that no class starts with. -/
theorem tokenize_eq_maximal_munch (source : String) :
    ∃ ls left, (∀ ls' left', Lexeme.Munch source.toList ls' left' ↔ ls' = ls ∧ left' = left) ∧
      ls.flatMap Lexeme.text ++ left = source.toList ∧
      (∀ ts, (tokenize source).result = .ok ts ↔ left = [] ∧ Lexeme.Spells ls ts) ∧
      (∀ e, (tokenize source).result = .error e ↔
        ∃ c more, left = c :: more ∧ e = ⟨.unrecognised (String.singleton c),[]⟩) := by
  refine ⟨(Lexeme.scan source.toList).1,(Lexeme.scan source.toList).2,
    fun ls' left' => Lexeme.munch_iff,Lexeme.flatMap_text_append_scan _,?_,?_⟩
  · intro ts
    rw [result_tokenize,Lexeme.spells_iff]
    cases (Lexeme.scan source.toList).2 with
    | nil => simp [eq_comm]
    | cons c more => simp
  · intro e
    rw [result_tokenize]
    cases (Lexeme.scan source.toList).2 with
    | nil => simp
    | cons c more => simp [eq_comm]

end LetPrint
