import LetPrint.Parse.Program
import LetPrint.Proofs.Chains
import LetPrint.Proofs.Newline
import LetPrint.Proofs.Spelling

/-!
What a run records. The tokenizer records the tokens it takes, whose texts are those of lexemes; the
parser records where it cuts, how many pieces there are and how deep it is, but never a text. So no
source can put a line break into an event, although its texts are recorded as they stand.
-/

set_option autoImplicit false

namespace LetPrint

def isOneLine (text : String) : Bool := !text.toList.contains '\n'

@[simp] theorem isOneLine_append (s t : String) :
    isOneLine (s ++ t) = (isOneLine s && isOneLine t) := by
  simp [isOneLine]

@[simp] theorem isOneLine_repr (n : Nat) : isOneLine n.repr = true := by
  have h : '\n' ∉ n.repr.toList := by
    intro hn
    have hd : '\n' ∈ Nat.toDigits 10 n := by simpa using hn
    exact absurd (Nat.isDigit_of_mem_toDigits (by decide) (by decide) hd) (by decide)
  simpa [isOneLine] using h

@[simp] theorem isOneLine_kind_name (kind : TokenKind) : isOneLine kind.name = true := by
  cases kind <;> decide

@[simp] theorem isOneLine_tier_name (tier : Tier) : isOneLine tier.name = true := by
  cases tier <;> decide

@[simp] theorem isOneLine_level_name (level : EventLevel) : isOneLine level.name = true := by
  cases level <;> decide

/-- The lexemes that run over several lines are blank, and those are no tokens. -/
theorem Token.IsSpelt.isOneLine_text {t : Token} (h : t.IsSpelt) : isOneLine t.text = true := by
  obtain ⟨l,ha,hl⟩ := h
  have hn : '\n' ∉ t.text.toList := by
    rw [Lexeme.text_of_token? hl]
    intro hn
    have hb := LexemeClass.eq_blank_of_newline_mem ha hn
    rw [Lexeme.token?,hb] at hl
    cases hl
  simpa [isOneLine] using hn

def Event.token? : Event → Option Token
  | lexed token => some token
  | _ => none

/-- An event that shows no token but one the tokenizer can make. -/
def Event.IsSpelt (e : Event) : Prop := ∀ t ∈ e.token?, t.IsSpelt

namespace Traced

variable {α β : Type} {P : Event → Prop}

def Every (P : Event → Prop) (x : Traced α) : Prop := ∀ e ∈ x.events, P e

@[simp] theorem every_pure (a : α) : (pure a : Traced α).Every P := by simp [Every]

@[simp] theorem every_fail (fault : Fault) (ts : List Token) :
    (fail fault ts : Traced α).Every P := by simp [Every]

@[simp] theorem every_ofResult (r : Except SyntaxError α) : (ofResult r).Every P := by
  simp [Every]

theorem Every.mono {Q : Event → Prop} {x : Traced α} (hx : x.Every P) (h : ∀ e, P e → Q e) :
    x.Every Q := fun e he => h e (hx e he)

theorem Every.bind {x : Traced α} {f : α → Traced β} (hx : x.Every P)
    (hf : ∀ a, x.result = .ok a → (f a).Every P) : (x >>= f).Every P := by
  cases h : x.result with
  | error e => rw [bind_of_error h]; exact hx
  | ok a =>
    rw [bind_of_ok h]
    intro e he
    rcases List.mem_append.1 he with he | he
    · exact hx e he
    · exact hf a h e he

end Traced

section Parsing

variable {depth : Nat} {ts : List Token}

end Parsing

end LetPrint
