import LetPrint.Lexeme
import Mathlib.Tactic.Common

/-!
The texts of each lexeme class, and what stands at the start of a text. A text of a class is read as
one lexeme of that class up to where it could go on, and the characters a lexeme can start with tell
the classes apart.
-/

set_option autoImplicit false

namespace LetPrint

def marks : List (Char × TokenKind) :=
  [('(',.lparen),(')',.rparen),('=',.equal),(';',.semicolon),('+',.plus),('-',.minus),('*',.mul),
   ('/',.div)]

def IsDigits (cs : List Char) : Prop := cs ≠ [] ∧ ∀ c ∈ cs, c.isDigit = true

namespace LexemeClass

def Accepts : LexemeClass → List Char → Prop
  | word, cs => ∃ c tail, cs = c :: tail ∧ isWordStart c = true ∧ ∀ d ∈ tail, isWordChar d = true
  | numeral, cs => IsDigits cs ∨
      ∃ whole fraction, cs = whole ++ '.' :: fraction ∧ IsDigits whole ∧ IsDigits fraction
  | blank, cs => cs ≠ [] ∧ ∀ c ∈ cs, Text.isBlank c = true
  | comment, cs => ∃ tail, cs = '/' :: '/' :: tail ∧ ∀ c ∈ tail, c ≠ '\n'
  | mark kind, cs => ∃ c, cs = [c] ∧ (c,kind) ∈ marks

/-- Whether a character after a text of the class may belong to a longer lexeme. -/
def continuesWith : LexemeClass → Char → Bool
  | word, c => isWordChar c
  | numeral, c => c.isDigit || c == '.'
  | blank, c => Text.isBlank c
  | comment, c => c != '\n'
  | mark _, c => c == '/'

end LexemeClass

section Characters

variable {c : Char}

theorem isDigit_iff : c.isDigit = true ↔ 48 ≤ c.toNat ∧ c.toNat ≤ 57 := by
  simp only [Char.isDigit,Bool.and_eq_true,decide_eq_true_eq,ge_iff_le,UInt32.le_iff_toNat_le]
  rfl

theorem isWordStart_iff : isWordStart c = true ↔
    (65 ≤ c.toNat ∧ c.toNat ≤ 90) ∨ (97 ≤ c.toNat ∧ c.toNat ≤ 122) ∨ c.toNat = 95 := by
  have h : c = '_' ↔ c.toNat = 95 := by rw [← Char.toNat_inj]; rfl
  unfold isWordStart
  delta Char.isAlpha Char.isUpper Char.isLower
  simp only [Bool.or_eq_true,Bool.and_eq_true,decide_eq_true_eq,ge_iff_le,UInt32.le_iff_toNat_le,
    beq_iff_eq,h,or_assoc]
  rfl

theorem codes_of_isBlank (h : Text.isBlank c = true) : c.toNat ≤ 32 ∨ 133 ≤ c.toNat := by
  obtain ⟨range,hm,h⟩ := Text.CodeRanges.contains_eq_true_iff.1 h
  simp only [Text.blankRanges,List.mem_cons,List.not_mem_nil,or_false] at hm
  rcases hm with rfl | rfl | rfl | rfl | rfl | rfl | rfl | rfl | rfl | rfl <;>
    simp only at h <;> omega

theorem not_isWordStart_of_isDigit (h : c.isDigit = true) : isWordStart c = false := by
  rw [isDigit_iff] at h
  rw [Bool.eq_false_iff,Ne,isWordStart_iff]; omega

theorem not_isWordStart_of_isBlank (h : Text.isBlank c = true) : isWordStart c = false := by
  have hc := codes_of_isBlank h
  rw [Bool.eq_false_iff,Ne,isWordStart_iff]; omega

theorem not_isDigit_of_isBlank (h : Text.isBlank c = true) : c.isDigit = false := by
  have hc := codes_of_isBlank h
  rw [Bool.eq_false_iff,Ne,isDigit_iff]; omega

theorem classes_of_mem_marks {kind : TokenKind} (h : (c,kind) ∈ marks) :
    isWordStart c = false ∧ c.isDigit = false ∧ Text.isBlank c = false := by
  simp only [marks,List.mem_cons,Prod.mk.injEq,List.not_mem_nil,or_false] at h
  rcases h with ⟨rfl,-⟩ | ⟨rfl,-⟩ | ⟨rfl,-⟩ | ⟨rfl,-⟩ | ⟨rfl,-⟩ | ⟨rfl,-⟩ | ⟨rfl,-⟩ | ⟨rfl,-⟩ <;>
    decide

theorem ofMark?_eq_some_iff {kind : TokenKind} :
    TokenKind.ofMark? c = some kind ↔ (c,kind) ∈ marks := by
  refine ⟨?_,?_⟩
  · intro h
    unfold TokenKind.ofMark? at h
    split at h <;> cases h <;> decide
  · intro h
    simp only [marks,List.mem_cons,Prod.mk.injEq,List.not_mem_nil,or_false] at h
    rcases h with ⟨rfl,rfl⟩ | ⟨rfl,rfl⟩ | ⟨rfl,rfl⟩ | ⟨rfl,rfl⟩ | ⟨rfl,rfl⟩ | ⟨rfl,rfl⟩ |
      ⟨rfl,rfl⟩ | ⟨rfl,rfl⟩ <;> rfl

end Characters

section Spans

variable {p : Char → Bool} {as bs : List Char}

theorem takeWhile_append_of_boundary (ha : ∀ c ∈ as, p c = true)
    (hb : ∀ c ∈ bs.head?, p c = false) : (as ++ bs).takeWhile p = as := by
  rw [List.takeWhile_append_of_pos ha]
  cases bs with
  | nil => simp
  | cons c bs => simp [hb c rfl]

theorem dropWhile_append_of_boundary (ha : ∀ c ∈ as, p c = true)
    (hb : ∀ c ∈ bs.head?, p c = false) : (as ++ bs).dropWhile p = bs := by
  rw [List.dropWhile_append_of_pos ha]
  cases bs with
  | nil => simp
  | cons c bs => simp [hb c rfl]

end Spans

theorem splitNumeral_of_digits {whole rest : List Char} (hw : ∀ c ∈ whole, c.isDigit = true)
    (hr : ∀ c ∈ rest.head?, (c.isDigit || c == '.') = false) :
    splitNumeral (whole ++ rest) = (whole,rest) := by
  have hd : ∀ c ∈ rest.head?, c.isDigit = false := fun c hc => (Bool.or_eq_false_iff.1 (hr c hc)).1
  have hf : splitFraction rest = ([],rest) := by
    unfold splitFraction; split
    · have hp := hr '.' rfl
      simp at hp
    · rfl
  rw [splitNumeral,takeWhile_append_of_boundary hw hd,dropWhile_append_of_boundary hw hd,hf]
  simp

theorem splitNumeral_of_fraction {whole fraction : List Char} (rest : List Char)
    (hw : ∀ c ∈ whole, c.isDigit = true) (hf : IsDigits fraction) :
    splitNumeral (whole ++ '.' :: (fraction ++ rest)) =
      (whole ++ '.' :: (fraction ++ rest.takeWhile Char.isDigit),rest.dropWhile Char.isDigit) := by
  have hp : ∀ c ∈ ('.' :: (fraction ++ rest)).head?, c.isDigit = false := by
    intro c hc
    obtain rfl : '.' = c := by simpa using hc
    decide
  have ht : (fraction ++ rest).takeWhile Char.isDigit = fraction ++ rest.takeWhile Char.isDigit :=
    List.takeWhile_append_of_pos hf.2
  have hd : (fraction ++ rest).dropWhile Char.isDigit = rest.dropWhile Char.isDigit :=
    List.dropWhile_append_of_pos hf.2
  have hn : fraction ++ rest.takeWhile Char.isDigit ≠ [] := by simp [hf.1]
  rw [splitNumeral,takeWhile_append_of_boundary hw hp,dropWhile_append_of_boundary hw hp,
    splitFraction,ht,hd,if_neg hn]

namespace Lexeme

variable {c : Char} {cs : List Char}

theorem next?_of_isWordStart (h : isWordStart c = true) :
    next? (c :: cs) = some (⟨.word,c :: cs.takeWhile isWordChar⟩,cs.dropWhile isWordChar) := by
  simp [next?,h]

theorem next?_of_isDigit (h : c.isDigit = true) :
    next? (c :: cs) = some (⟨.numeral,(splitNumeral (c :: cs)).1⟩,(splitNumeral (c :: cs)).2) := by
  simp [next?,not_isWordStart_of_isDigit h,h]

theorem next?_of_isBlank (h : Text.isBlank c = true) :
    next? (c :: cs) =
      some (⟨.blank,c :: cs.takeWhile Text.isBlank⟩,cs.dropWhile Text.isBlank) := by
  simp [next?,not_isWordStart_of_isBlank h,not_isDigit_of_isBlank h,h]

theorem next?_of_slashes :
    next? ('/' :: '/' :: cs) =
      some (⟨.comment,'/' :: '/' :: cs.takeWhile (· ≠ '\n')⟩,cs.dropWhile (· ≠ '\n')) := by
  have hc := classes_of_mem_marks (show ('/',TokenKind.div) ∈ marks by decide)
  simp [next?,hc]

theorem next?_of_mem_marks {kind : TokenKind} (h : (c,kind) ∈ marks)
    (hc : ¬ (c = '/' ∧ cs.head? = some '/')) : next? (c :: cs) = some (⟨.mark kind,[c]⟩,cs) := by
  have hcl := classes_of_mem_marks h
  simp [next?,hcl,hc,ofMark?_eq_some_iff.2 h]

theorem next?_append {cls : LexemeClass} {text rest : List Char} (h : cls.Accepts text)
    (hr : ∀ c ∈ rest.head?, cls.continuesWith c = false) :
    next? (text ++ rest) = some (⟨cls,text⟩,rest) := by
  cases cls with
  | word =>
    obtain ⟨c,tail,rfl,hc,ht⟩ := h
    rw [List.cons_append,next?_of_isWordStart hc,takeWhile_append_of_boundary ht hr,
      dropWhile_append_of_boundary ht hr]
  | numeral =>
    rcases h with ⟨hn,hd⟩ | ⟨whole,fraction,rfl,⟨hn,hd⟩,hf⟩
    · obtain ⟨c,tail,rfl⟩ := List.exists_cons_of_ne_nil hn
      have hs := splitNumeral_of_digits hd hr
      rw [List.cons_append] at hs ⊢
      rw [next?_of_isDigit (hd c (by simp)),hs]
    · obtain ⟨c,tail,rfl⟩ := List.exists_cons_of_ne_nil hn
      have hrd : ∀ c ∈ rest.head?, c.isDigit = false :=
        fun c hc => (Bool.or_eq_false_iff.1 (hr c hc)).1
      have hs := splitNumeral_of_fraction rest hd hf
      have hk : rest.takeWhile Char.isDigit = [] := by
        simpa using takeWhile_append_of_boundary (List.forall_mem_nil _) hrd
      have hk' : rest.dropWhile Char.isDigit = rest := by
        simpa using dropWhile_append_of_boundary (List.forall_mem_nil _) hrd
      rw [hk,hk',List.append_nil] at hs
      simp only [List.cons_append,List.append_assoc] at hs ⊢
      rw [next?_of_isDigit (hd c (by simp)),hs]
  | blank =>
    obtain ⟨hn,hb⟩ := h
    obtain ⟨c,tail,rfl⟩ := List.exists_cons_of_ne_nil hn
    have ht : ∀ d ∈ tail, Text.isBlank d = true := fun d hd => hb d (by simp [hd])
    rw [List.cons_append,next?_of_isBlank (hb c (by simp)),takeWhile_append_of_boundary ht hr,
      dropWhile_append_of_boundary ht hr]
  | comment =>
    obtain ⟨tail,rfl,ht⟩ := h
    have ht : ∀ c ∈ tail, decide (c ≠ '\n') = true := by simpa using ht
    have hr : ∀ c ∈ rest.head?, decide (c ≠ '\n') = false := by
      simpa [LexemeClass.continuesWith] using hr
    rw [List.cons_append,List.cons_append,next?_of_slashes,takeWhile_append_of_boundary ht hr,
      dropWhile_append_of_boundary ht hr]
  | mark kind =>
    obtain ⟨c,rfl,hc⟩ := h
    refine next?_of_mem_marks hc ?_
    intro hs
    have hcont := hr '/' hs.2
    simp [LexemeClass.continuesWith] at hcont

theorem next?_of_accepts {cls : LexemeClass} {text : List Char} (h : cls.Accepts text) :
    next? text = some (⟨cls,text⟩,[]) := by
  have hn := @next?_append cls text [] h (by simp)
  rwa [List.append_nil] at hn

theorem exists_next?_of_accepts {cls : LexemeClass} {text : List Char} (rest : List Char)
    (h : cls.Accepts text) :
    ∃ l left, next? (text ++ rest) = some (l,left) ∧ text <+: l.text := by
  cases cls with
  | word =>
    obtain ⟨c,tail,rfl,hc,ht⟩ := h
    refine ⟨_,_,next?_of_isWordStart hc,?_⟩
    simp [List.takeWhile_append_of_pos ht]
  | numeral =>
    rcases h with ⟨hn,hd⟩ | ⟨whole,fraction,rfl,⟨hn,hd⟩,hf⟩
    · obtain ⟨c,tail,rfl⟩ := List.exists_cons_of_ne_nil hn
      refine ⟨_,_,next?_of_isDigit (hd c (by simp)),?_⟩
      simp only [List.append_eq,← List.cons_append,splitNumeral,List.takeWhile_append_of_pos hd,
        List.append_assoc]
      exact List.prefix_append _ _
    · obtain ⟨c,tail,rfl⟩ := List.exists_cons_of_ne_nil hn
      have hs := splitNumeral_of_fraction rest hd hf
      refine ⟨_,_,next?_of_isDigit (hd c (by simp)),?_⟩
      simp only [List.cons_append,List.append_eq,List.append_assoc] at hs ⊢
      rw [hs]
      simp
  | blank =>
    obtain ⟨hn,hb⟩ := h
    obtain ⟨c,tail,rfl⟩ := List.exists_cons_of_ne_nil hn
    have ht : ∀ d ∈ tail, Text.isBlank d = true := fun d hd => hb d (by simp [hd])
    refine ⟨_,_,next?_of_isBlank (hb c (by simp)),?_⟩
    simp [List.takeWhile_append_of_pos ht]
  | comment =>
    obtain ⟨tail,rfl,ht⟩ := h
    have ht : ∀ c ∈ tail, decide (c ≠ '\n') = true := by simpa using ht
    refine ⟨_,_,next?_of_slashes,?_⟩
    simp only [List.append_eq]
    rw [List.takeWhile_append_of_pos ht]
    simp
  | mark kind =>
    obtain ⟨c,rfl,hc⟩ := h
    by_cases hs : c = '/' ∧ rest.head? = some '/'
    · obtain ⟨rfl,hr⟩ := hs
      obtain ⟨more,rfl⟩ := List.head?_eq_some_iff.1 hr
      refine ⟨_,_,next?_of_slashes,?_⟩
      simp
    · exact ⟨_,_,next?_of_mem_marks hc hs,List.prefix_rfl⟩

end Lexeme

end LetPrint
