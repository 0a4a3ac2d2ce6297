import LetPrint.Proofs.Listing
import LetPrint.Proofs.ReportedTokens

/-!
A source cannot break up the report of its error. Tokens are written in printable ASCII, and a report
shows nothing else of the source but one unrecognised character, in quotes. That one stands for
itself only if it is printable; so the report has its four lines whatever the source has in it.
-/

set_option autoImplicit false

namespace LetPrint

def isPlain (c : Char) : Bool := 0x20 ≤ c.toNat && c.toNat < 0x7F

/-- The characters of a text that are not printable ASCII, in order. -/
def strange (text : String) : List Char := text.toList.filter fun c => !isPlain c

section Characters

variable {c : Char}

@[simp] theorem strange_append (s t : String) : strange (s ++ t) = strange s ++ strange t := by
  simp [strange]

theorem strange_append_eq_nil {s t : String} (hs : strange s = []) (ht : strange t = []) :
    strange (s ++ t) = [] := by rw [strange_append,hs,ht,List.append_nil]

theorem strange_eq_nil_iff {text : String} :
    strange text = [] ↔ ∀ c ∈ text.toList, isPlain c = true := by
  simp [strange]

theorem strange_intercalate {sep : String} {texts : List String} (hs : strange sep = [])
    (ht : ∀ text ∈ texts, strange text = []) : strange (sep.intercalate texts) = [] := by
  induction texts with
  | nil => simp [strange]
  | cons text texts ih =>
    rw [List.forall_mem_cons] at ht
    cases texts with
    | nil => simpa using ht.1
    | cons next texts =>
      rw [String.intercalate_cons_cons,strange_append,strange_append,ht.1,hs,ih ht.2]
      rfl

theorem isOneLine_of_newline_not_mem {text : String} (h : '\n' ∉ strange text) :
    isOneLine text = true := by
  have hp : isPlain '\n' = false := rfl
  simpa [strange,isOneLine,hp] using h

theorem isPlain_of_isLiteralChar (h : isLiteralChar c = true) : isPlain c = true := by
  rw [isLiteralChar,isWordChar,Bool.or_eq_true,Bool.or_eq_true,isWordStart_iff,isDigit_iff,
    beq_iff_eq] at h
  simp only [isPlain,Bool.and_eq_true,decide_eq_true_eq]
  rcases h with h | rfl
  · omega
  · decide

theorem isPlain_digitChar {n : Nat} (h : n < 16) : isPlain n.digitChar = true := by
  revert n
  decide

theorem isPlain_of_mem_toDigits {n : Nat} (h : c ∈ Nat.toDigits 16 n) : isPlain c = true := by
  induction n using Nat.strongRecOn with
  | ind n ih =>
    rw [Nat.toDigits_eq_if (by decide)] at h
    split at h
    · rename_i hn
      rw [List.mem_singleton.1 h]
      exact isPlain_digitChar hn
    · rcases List.mem_append.1 h with h | h
      · exact ih (n/16) (by omega) h
      · rw [List.mem_singleton.1 h]
        exact isPlain_digitChar (Nat.mod_lt n (by decide))

theorem isPlain_escape_or (c : Char) :
    (∀ d ∈ Text.escape c, isPlain d = true) ∨
      Text.escape c = [c] ∧ Text.isPrintable c = true := by
  unfold Text.escape
  repeat' split
  · exact .inl (List.all_eq_true.1 rfl)
  · exact .inl (List.all_eq_true.1 rfl)
  · exact .inl (List.all_eq_true.1 rfl)
  · exact .inl (List.all_eq_true.1 rfl)
  · exact .inl (List.all_eq_true.1 rfl)
  · exact .inl (List.all_eq_true.1 rfl)
  · exact .inr ⟨rfl,‹_›⟩
  · refine .inl fun d hd => ?_
    simp only [Text.codePointEscape,List.mem_append,List.mem_cons,List.not_mem_nil,or_false] at hd
    rcases hd with ((rfl | rfl | rfl) | hd) | rfl
    · decide
    · decide
    · decide
    · exact isPlain_of_mem_toDigits hd
    · decide

theorem strange_quote_singleton (c : Char) :
    strange (Text.quote (String.singleton c)) = [] ∨
      strange (Text.quote (String.singleton c)) = [c] ∧ Text.escape c = [c] ∧
        Text.isPrintable c = true ∧ isPlain c = false := by
  have hq : strange (Text.quote (String.singleton c)) =
      (Text.escape c).filter fun d => !isPlain d := by
    have hp : isPlain '"' = true := rfl
    simp [strange,Text.quoted,hp]
  rw [hq]
  rcases isPlain_escape_or c with he | ⟨he,hp⟩
  · exact .inl (by simpa using he)
  · cases hc : isPlain c with
    | true => exact .inl (by simp [he,hc])
    | false => exact .inr ⟨by simp [he,hc],he,hp,rfl⟩

theorem strange_quote {text : String} (h : strange text = []) : strange (Text.quote text) = [] := by
  rw [strange_eq_nil_iff] at h ⊢
  have he : ∀ c ∈ text.toList, ∀ d ∈ Text.escape c, isPlain d = true := by
    intro c hc
    rcases isPlain_escape_or c with he | ⟨he,-⟩
    · exact he
    · simpa [he] using h c hc
  rw [Text.toList_quote,Text.quoted]
  simp only [List.cons_append,List.forall_mem_cons,List.forall_mem_append,List.mem_flatMap]
  refine ⟨rfl,?_,rfl,by simp⟩
  rintro d ⟨c,hc,hd⟩
  exact he c hc d hd

theorem contains_eq_false_of_isPrintable (h : Text.isPrintable c = true) (hc : isPlain c = false) :
    Text.unprintableRanges.contains c = false ∧ Text.graphemeExtendRanges.contains c = false := by
  rw [Text.isPrintable,← isPlain,hc,Bool.false_or,Bool.not_eq_true',Bool.or_eq_false_iff] at h
  exact h

end Characters

section Texts

theorem TokenKind.strange_fixedText {k : TokenKind} {text : String}
    (h : k.fixedText? = some text) : strange text = [] := by
  cases k <;> cases h <;> decide

theorem Token.IsSpelt.strange_text {t : Token} (h : t.IsSpelt) : strange t.text = [] := by
  cases hl : t.isLiteral with
  | true =>
    rw [strange_eq_nil_iff]
    exact fun c hc => isPlain_of_isLiteralChar (h.isLiteralChar hl c hc)
  | false => exact TokenKind.strange_fixedText (h.fixedText? hl)

theorem strange_offending {ts : List Token} (h : ∀ t ∈ ts, t.IsSpelt) :
    strange (CommandLine.offending ts) = [] := by
  refine strange_intercalate (by decide) ?_
  intro text ht
  obtain ⟨t,hm,rfl⟩ := List.mem_map.1 ht
  exact (h t hm).strange_text

def Fault.subject : Fault → String
  | unrecognised text | number text => text
  | statement fault => fault.message
  | expression fault => fault.message
  | nesting limit => toString limit

theorem Fault.message_ne_empty (f : Fault) : f.message ≠ "" := by
  have ha : ∀ s t : String, s ≠ "" → s ++ t ≠ "" := by simp +contextual
  cases f with
  | _ => exact ha _ _ (by decide)

theorem Fault.strange_message {f : Fault} (h : strange f.subject = []) :
    strange f.message = [] := by
  cases f with
  | unrecognised text | number text => exact strange_append_eq_nil (by decide) (strange_quote h)
  | statement fault | expression fault | nesting limit =>
    exact strange_append_eq_nil (by decide) h

theorem Fault.strange_tip {f : Fault} (h : strange f.subject = []) :
    ∀ tip ∈ f.tip?, strange tip = [] := by
  intro tip ht
  cases f with
  | unrecognised text => cases ht
  | statement fault | expression fault | nesting limit =>
    cases ht
    exact strange_append_eq_nil (by decide) h
  | number text =>
    cases ht
    exact strange_append_eq_nil (strange_append_eq_nil (by decide) h) (by decide)

theorem Fault.strange_name (f : Fault) : strange f.name = [] := by
  have hn : ∀ name ∈ ["UnrecognisedToken","InvalidStatement","InvalidExpression",
      "NumberParseError","NestingTooDeep"], strange name = [] := by decide
  cases f <;> exact hn _ (by simp [name])

theorem Fault.tip?_eq_none_iff (f : Fault) : f.tip? = none ↔ f.name = "UnrecognisedToken" := by
  cases f <;> simp [tip?,name]

end Texts

section Errors

variable {ts : List Token} {e : SyntaxError}

theorem LocatedIn.strange_subject {pairs : Nat} (hts : ∀ t ∈ ts, t.IsSpelt)
    (h : LocatedIn ts pairs e) : strange e.fault.subject = [] := by
  cases h with
  | expression _ hr he =>
    have hm : ∀ fault ∈ [ExpressionFault.noTopLevelOperator,.missingOperand,.formless],
        strange fault.message = [] := by decide
    exact hm _ (hr.fault_cases he)
  | @number t ht => exact (hts t ht).strange_text
  | nesting => exact show strange (toString nestingLimit) = [] by decide

theorem Misshapen.strange_message {c : List Token} {fault : StatementFault}
    (hc : ∀ t ∈ c, t.IsSpelt) (h : Misshapen fault c) : strange fault.message = [] := by
  cases h with
  | @keyword first rest =>
    have ht := (hc first (by simp)).strange_text
    exact strange_append_eq_nil (strange_append_eq_nil (by decide) ht) (by decide)
  | empty | name | equal | value => rfl

theorem strange_subject_of_parseProgram_error (hts : ∀ t ∈ ts, t.IsSpelt)
    (h : (parseProgram ts).result = .error e) : strange e.fault.subject = [] := by
  rcases cases_of_parseProgram_error h with rfl | ⟨fault,c,hc,hm,rfl⟩ | ⟨value,hv,hl⟩
  · decide
  · exact hm.strange_message fun t ht => hts t (hc ht)
  · exact hl.strange_subject fun t ht => hts t (hv ht)

end Errors

namespace CommandLine

def heading (e : SyntaxError) : String :=
  match e.tip? with
  | none => "Error: " ++ e.name
  | some tip => "Error: " ++ e.name ++ " (" ++ tip ++ ")"

/-- The offending tokens, or the message if they have no text. -/
def excerpt (e : SyntaxError) : String :=
  if (offending e.tokens).isEmpty then e.message else offending e.tokens

theorem report_eq (file : String) (e : SyntaxError) :
    report file e = [heading e,"-> " ++ file,"   |","   | " ++ excerpt e] := rfl

variable {source : String} {e : SyntaxError}

theorem excerpt_ne_empty (e : SyntaxError) : excerpt e ≠ "" := by
  unfold excerpt
  split
  · exact e.fault.message_ne_empty
  · rename_i h
    simpa using h

theorem strange_heading (h : ∀ tip ∈ e.tip?, strange tip = []) : strange (heading e) = [] := by
  have hn : strange e.name = [] := e.fault.strange_name
  cases ht : e.tip? with
  | none =>
    rw [heading,ht]
    exact strange_append_eq_nil (by decide) hn
  | some tip =>
    rw [heading,ht]
    have hs := strange_append_eq_nil (show strange "Error: " = [] by decide) hn
    have ho := strange_append_eq_nil hs (show strange " (" = [] by decide)
    exact strange_append_eq_nil (strange_append_eq_nil ho (h tip ht)) (by decide)

theorem heading_eq (e : SyntaxError) : heading e =
    if e.name = "UnrecognisedToken" then "Error: " ++ e.name
    else "Error: " ++ e.name ++ " (" ++ e.tip?.getD "" ++ ")" := by
  have hn : e.tip? = none ↔ e.name = "UnrecognisedToken" := e.fault.tip?_eq_none_iff
  cases ht : e.tip? with
  | none => rw [if_pos (hn.1 ht),heading,ht]
  | some tip => rw [if_neg (mt hn.2 (by simp [ht])),heading,ht,Option.getD_some]

theorem splitOn_report {file : String} (hf : '\n' ∉ file.toList)
    (hh : '\n' ∉ strange (heading e)) (hx : '\n' ∉ strange (excerpt e)) :
    (ofLines (report file e)).toList.splitOn '\n' =
      [heading e,"-> " ++ file,"   |","   | " ++ excerpt e,""].map String.toList := by
  have hlines : ∀ line ∈ report file e, isOneLine line = true := by
    have hh := isOneLine_of_newline_not_mem hh
    have hx := isOneLine_of_newline_not_mem hx
    have hf : isOneLine file = true := by simpa [isOneLine] using hf
    rw [report_eq]
    simp only [List.forall_mem_cons,isOneLine_append,hh,hx,hf]
    decide
  rw [splitOn_ofLines hlines]
  rfl

theorem strange_of_parseSource_error (h : (parseSource source).result = .error e) :
    strange (heading e) = [] ∧ (strange (excerpt e) = [] ∨
      ∃ c, e = ⟨.unrecognised (String.singleton c),[]⟩ ∧ strange (excerpt e) = [c] ∧
        Text.escape c = [c] ∧ Text.isPrintable c = true ∧ isPlain c = false) := by
  rcases cases_of_parseSource_error h with ⟨c,rfl⟩ | ⟨ts,hts,h⟩
  · refine ⟨strange_heading nofun,?_⟩
    have he : excerpt ⟨.unrecognised (String.singleton c),[]⟩ =
        "unrecognised token: " ++ Text.quote (String.singleton c) := rfl
    rw [he,strange_append,show strange "unrecognised token: " = [] by decide,List.nil_append]
    rcases strange_quote_singleton c with hq | hq
    · exact .inl hq
    · exact .inr ⟨c,rfl,hq⟩
  · have hs := strange_subject_of_parseProgram_error (fun _ => Token.isSpelt_of_tokenize hts) h
    refine ⟨strange_heading (Fault.strange_tip hs),.inl ?_⟩
    unfold excerpt
    split
    · exact Fault.strange_message hs
    · exact strange_offending (isSpelt_of_parseProgram_error hts h)

/-- Whatever a source holds that is no program, the report of its error has four lines. All that is
written in them besides the name of the file is printable ASCII, but for one character at most: the
one that starts no lexeme, if it is a character that is printed as it is. -/
theorem report_in_four_lines {file : String} (hf : '\n' ∉ file.toList)
    (h : (parseSource source).result = .error e) :
    (ofLines (report file e)).toList.splitOn '\n' =
      [heading e,"-> " ++ file,"   |","   | " ++ excerpt e,""].map String.toList ∧
    (heading e = if e.name = "UnrecognisedToken" then "Error: " ++ e.name
      else "Error: " ++ e.name ++ " (" ++ e.tip?.getD "" ++ ")") ∧
    (e.tip? = none ↔ e.name = "UnrecognisedToken") ∧
    excerpt e ≠ "" ∧
    (strange (heading e ++ "-> " ++ "   |" ++ "   | " ++ excerpt e) = [] ∨
      ∃ c, e = ⟨.unrecognised (String.singleton c),[]⟩ ∧
        strange (heading e ++ "-> " ++ "   |" ++ "   | " ++ excerpt e) = [c] ∧
        Text.escape c = [c] ∧ Text.unprintableRanges.contains c = false ∧
        Text.graphemeExtendRanges.contains c = false) := by
  obtain ⟨hh,he⟩ := strange_of_parseSource_error h
  have hall : strange (heading e ++ "-> " ++ "   |" ++ "   | " ++ excerpt e) =
      strange (excerpt e) := by
    simp only [strange_append,hh]
    rfl
  have hn : '\n' ∉ strange (excerpt e) := by
    rcases he with he | ⟨c,-,he,-,hp,-⟩
    · simp [he]
    · rw [he,List.mem_singleton]
      rintro rfl
      exact absurd hp (by decide)
  refine ⟨splitOn_report hf (by simp [hh]) hn,heading_eq e,e.fault.tip?_eq_none_iff,
    excerpt_ne_empty e,?_⟩
  rw [hall]
  rcases he with he | ⟨c,hc,he,hs,hp,hpl⟩
  · exact .inl he
  · exact .inr ⟨c,hc,he,hs,contains_eq_false_of_isPrintable hp hpl⟩

theorem report_in_four_lines_accent :
    (ofLines (report "a.lang" ⟨.unrecognised "é",[]⟩)).toList.splitOn '\n' =
      ["Error: UnrecognisedToken","-> a.lang","   |","   | unrecognised token: \"é\"",""].map
        String.toList := by
  have he : (parseSource "é").result = .error ⟨.unrecognised "é",[]⟩ := by
    rw [result_parseSource,result_tokenize,show "é".toList = ['é'] from rfl,Lexeme.scan_of_none rfl]
    rfl
  have hx : excerpt ⟨.unrecognised "é",[]⟩ = "unrecognised token: \"é\"" := by decide +kernel
  have h := report_in_four_lines (show '\n' ∉ "a.lang".toList by decide) he
  rw [h.1,hx]
  rfl

end CommandLine

end LetPrint
