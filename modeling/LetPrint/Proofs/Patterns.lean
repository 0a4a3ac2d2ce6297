import LetPrint.Proofs.LexemeClasses

set_option autoImplicit false

namespace LetPrint

inductive Pattern where
  | word
  | numeral
  | blank
  | comment
  | literal (c : Char) (kind : TokenKind)
  deriving DecidableEq, Repr

namespace Pattern

def all : List Pattern :=
  [word,numeral,blank,comment] ++ marks.map fun m => literal m.1 m.2

def find? : Pattern → List Char → Option (List Char)
  | _, [] => none
  | word, c :: cs => if isWordStart c then some (c :: cs.takeWhile isWordChar) else none
  | numeral, c :: cs => if c.isDigit then some (splitNumeral (c :: cs)).1 else none
  | blank, c :: cs => if Text.isBlank c then some (c :: cs.takeWhile Text.isBlank) else none
  | comment, c :: cs =>
    if c = '/' ∧ cs.head? = some '/' then some (c :: cs.takeWhile (· ≠ '\n')) else none
  | literal d _, c :: _ => if c = d then some [c] else none

def first? (cs : List Char) : Option Pattern := all.find? fun p => (p.find? cs).isSome

/-- The token a match stands for. A literal brings its own text. -/
def token? : Pattern → List Char → Option Token
  | word, text => some ⟨.ofWord (String.ofList text),String.ofList text⟩
  | numeral, text => some ⟨.number,String.ofList text⟩
  | blank, _ | comment, _ => none
  | literal c kind, _ => some ⟨kind,String.ofList [c]⟩

def cls : Pattern → LexemeClass
  | word => .word
  | numeral => .numeral
  | blank => .blank
  | comment => .comment
  | literal _ kind => .mark kind

variable {c : Char} {cs : List Char} {p : Pattern}

theorem first?_of_mem_marks {kind : TokenKind} (h : (c,kind) ∈ marks)
    (hc : ¬ (c = '/' ∧ cs.head? = some '/')) : first? (c :: cs) = some (literal c kind) := by
  have hcl := classes_of_mem_marks h
  simp only [marks,List.mem_cons,Prod.mk.injEq,List.not_mem_nil,or_false] at h
  rcases h with ⟨rfl,rfl⟩ | ⟨rfl,rfl⟩ | ⟨rfl,rfl⟩ | ⟨rfl,rfl⟩ | ⟨rfl,rfl⟩ | ⟨rfl,rfl⟩ |
    ⟨rfl,rfl⟩ | ⟨rfl,rfl⟩ <;> simp_all [first?,all,marks,find?]

theorem first?_of_not_mem_marks (h : ∀ kind, (c,kind) ∉ marks) :
    first? (c :: cs) = [word,numeral,blank,comment].find? fun p => (p.find? (c :: cs)).isSome := by
  have hn : (marks.map fun m => literal m.1 m.2).find? (fun p => (p.find? (c :: cs)).isSome) =
      none := by
    rw [List.find?_eq_none]
    intro p hp
    obtain ⟨⟨d,kind⟩,hd,rfl⟩ := List.mem_map.1 hp
    have hne : c ≠ d := by
      intro hcd
      exact h kind (hcd ▸ hd)
    simp [find?,hne]
  rw [first?,all,List.find?_append,hn,Option.or_none]

theorem map_next?_eq (cs : List Char) :
    (Lexeme.next? cs).map Prod.fst =
      (first? cs).bind fun p => (p.find? cs).map (Lexeme.mk p.cls) := by
  cases cs with
  | nil => rfl
  | cons c cs =>
    by_cases hw : isWordStart c = true
    · simp [Lexeme.next?,first?,all,find?,cls,hw]
    by_cases hd : c.isDigit = true
    · simp [Lexeme.next?,first?,all,find?,cls,hw,hd]
    by_cases hb : Text.isBlank c = true
    · simp [Lexeme.next?,first?,all,find?,cls,hw,hd,hb]
    by_cases hs : c = '/' ∧ cs.head? = some '/'
    · obtain ⟨rfl,hh⟩ := hs
      simp [Lexeme.next?,first?,all,find?,cls,hw,hb,hh]
    · cases hk : TokenKind.ofMark? c with
      | none =>
        have hm : ∀ kind, (c,kind) ∉ marks := by
          intro kind hm
          rw [ofMark?_eq_some_iff.2 hm] at hk
          cases hk
        simp [Lexeme.next?,first?_of_not_mem_marks hm,find?,hw,hd,hb,hs,hk]
      | some kind =>
        have hm := ofMark?_eq_some_iff.1 hk
        simp [Lexeme.next?,first?_of_mem_marks hm hs,find?,cls,hw,hd,hb,hs,hk]

theorem eq_of_find?_literal {d : Char} {kind : TokenKind} {text : List Char}
    (h : (literal d kind).find? cs = some text) : text = [d] := by
  cases cs with
  | nil => cases h
  | cons c cs =>
    obtain ⟨rfl,ht⟩ := Option.ite_none_right_eq_some.1 h
    exact (Option.some.inj ht).symm

theorem token?_of_find? {text : List Char} (h : p.find? cs = some text) :
    p.token? text = (Lexeme.mk p.cls text).token? := by
  cases p with
  | literal d kind =>
    obtain rfl := eq_of_find?_literal h
    rfl
  | _ => rfl

theorem exists_first?_of_next? {rest : List Char} {l : Lexeme}
    (h : Lexeme.next? cs = some (l,rest)) :
    ∃ p, first? cs = some p ∧ p.find? cs = some l.text ∧ p.token? l.text = l.token? := by
  have hm := map_next?_eq cs
  rw [h] at hm
  obtain ⟨p,hp,hl⟩ := Option.bind_eq_some_iff.1 hm.symm
  obtain ⟨text,ht,rfl⟩ := Option.map_eq_some_iff.1 hl
  exact ⟨p,hp,ht,token?_of_find? ht⟩

theorem first?_eq_none (h : Lexeme.next? cs = none) : first? cs = none := by
  have hm := map_next?_eq cs
  rw [h] at hm
  cases hp : first? cs with
  | none => rfl
  | some p =>
    have hs := List.find?_some hp
    rw [hp] at hm
    obtain ⟨text,ht⟩ := Option.isSome_iff_exists.1 hs
    simp [ht] at hm

end Pattern

end LetPrint
