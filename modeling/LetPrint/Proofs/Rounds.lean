import LetPrint.Cursor
import LetPrint.Proofs.Completion
import LetPrint.Proofs.Patterns
import LetPrint.Proofs.Spelling

/-!
The tokenizer as a cursor that moves in rounds. A round looks for the first pattern that matches
what is left of the text, records its token if it stands for one, and moves on behind the match.
Offsets are only added up, yet the cursor stays inside the text and between two characters, and it
moves with every round; so there are no more rounds than bytes, and all of them together make the
tokens, the events and the error of the text.
-/

set_option autoImplicit false

namespace LetPrint

namespace Cursor

def record (t : Token) (cursor : Cursor) : OptionT Traced Cursor := do
  Traced.emit (.lexed t)
  return cursor.push t

/-- What is done where a pattern is the first to match: a literal is known without a second look at
the text, for any other pattern the match is made again. -/
def follow (p : Pattern) (cursor : Cursor) : OptionT Traced Cursor :=
  match p with
  | .literal c kind => do
    let cursor ← cursor.record ⟨kind,String.ofList [c]⟩
    Traced.require (cursor.advance? (byteSize [c]))
  | p => do
    match p.find? (← Traced.require cursor.remainder?) with
    | none => return cursor
    | some text =>
      let cursor ← Traced.require (cursor.advance? (byteSize text))
      match p.token? text with
      | none => return cursor
      | some t => cursor.record t

def round (cursor : Cursor) : OptionT Traced Cursor := do
  match Pattern.first? (← Traced.require cursor.remainder?) with
  | some p => cursor.follow p
  | none =>
    let c ← Traced.require cursor.current?
    liftM (Traced.fail (.unrecognised (String.singleton c)) [] : Traced Cursor)

def finish (cursor : Cursor) : Traced (List Token) := do
  Traced.emit (.tokenized cursor.tokens.length)
  return cursor.tokens

def run : Nat → Cursor → OptionT Traced (List Token)
  | 0, cursor => if cursor.atEnd then liftM cursor.finish else failure
  | rounds+1, cursor =>
    if cursor.atEnd then liftM cursor.finish else do run rounds (← cursor.round)

/-- The cursor at the start of a round, and at the end, after so many rounds from the start. -/
inductive Visited (source : List Char) : Nat → Cursor → Prop where
  | start : Visited source 0 (start source)
  | round {rounds : Nat} {cursor next : Cursor} :
      Visited source rounds cursor → cursor.atEnd = false →
      cursor.round.run.result = .ok (some next) → Visited source (rounds+1) next

def behind (text : List Char) (t? : Option Token) (cursor : Cursor) : Cursor :=
  ⟨cursor.source,cursor.offset + byteSize text,cursor.tokens ++ t?.toList⟩

variable {cursor : Cursor} {cs : List Char} {p : Pattern}

theorem advance?_of_lt {n : Nat} (h : cursor.offset + n < 1 <<< 64) :
    cursor.advance? n = some {cursor with offset := cursor.offset + n} := by
  rw [advance?,if_pos h]

theorem advance?_of_le {n : Nat} (h : 1 <<< 64 ≤ cursor.offset + n) : cursor.advance? n = none := by
  rw [advance?,if_neg (Nat.not_lt.2 h)]

theorem follow_eq {text : List Char} (hr : cursor.remainder? = some cs)
    (hp : p.find? cs = some text) (hfit : cursor.offset + byteSize text < 1 <<< 64) :
    cursor.follow p = (do
      Traced.emitAll ((p.token? text).toList.map .lexed)
      return cursor.behind text (p.token? text)) := by
  cases p with
  | literal c kind =>
    obtain rfl := Pattern.eq_of_find?_literal hp
    have hpush : (cursor.push ⟨kind,String.ofList [c]⟩).advance? (byteSize [c]) =
        some (cursor.behind [c] (some ⟨kind,String.ofList [c]⟩)) := advance?_of_lt hfit
    simp only [follow,record,bind_assoc,pure_bind,hpush,Traced.require_some]
    rfl
  | word => simp [follow,hr,hp,advance?_of_lt hfit,Pattern.token?,record]; rfl
  | numeral => simp [follow,hr,hp,advance?_of_lt hfit,Pattern.token?,record]; rfl
  | blank => simp [follow,hr,hp,advance?_of_lt hfit,Pattern.token?,behind]; rfl
  | comment => simp [follow,hr,hp,advance?_of_lt hfit,Pattern.token?,behind]; rfl

theorem result_follow_of_le {text : List Char} (hr : cursor.remainder? = some cs)
    (hp : p.find? cs = some text) (hfit : 1 <<< 64 ≤ cursor.offset + byteSize text) :
    (cursor.follow p).run.result = .ok none := by
  cases p with
  | literal c kind =>
    obtain rfl := Pattern.eq_of_find?_literal hp
    have hpush : (cursor.push ⟨kind,String.ofList [c]⟩).advance? (byteSize [c]) = none :=
      advance?_of_le hfit
    simp only [follow,record,bind_assoc,pure_bind,hpush,Traced.require_none]
    rfl
  | word => simp [follow,hr,hp,advance?_of_le hfit]
  | numeral => simp [follow,hr,hp,advance?_of_le hfit]
  | blank => simp [follow,hr,hp,advance?_of_le hfit]
  | comment => simp [follow,hr,hp,advance?_of_le hfit]

section Places

theorem offset_add_byteSize (hr : cursor.remainder? = some cs) :
    cursor.offset + byteSize cs = byteSize cursor.source := by
  obtain ⟨before,hs,hb⟩ := remainder?_eq_some_iff.1 hr
  rw [hs,byteSize_append,hb]

theorem byteSize_pos (hn : cs ≠ []) : 0 < byteSize cs := by
  have hl := length_le_byteSize cs
  have hc := List.length_pos_iff.2 hn
  omega

theorem atEnd_iff (hr : cursor.remainder? = some cs) : cursor.atEnd = true ↔ cs = [] := by
  have hsum := offset_add_byteSize hr
  rw [atEnd,decide_eq_true_iff]
  refine ⟨?_,?_⟩
  · intro h
    by_contra hn
    have hpos := byteSize_pos hn
    omega
  · rintro rfl
    simp only [byteSize] at hsum
    omega

theorem remainder?_start (source : List Char) : (start source).remainder? = some source :=
  remainder?_eq_some_iff.2 ⟨[],rfl,rfl⟩

theorem remainder?_behind {text rest : List Char} {t? : Option Token}
    (hr : cursor.remainder? = some (text ++ rest)) :
    (cursor.behind text t?).remainder? = some rest := by
  obtain ⟨before,hs,hb⟩ := remainder?_eq_some_iff.1 hr
  refine remainder?_eq_some_iff.2 ⟨before ++ text,?_,?_⟩
  · rw [List.append_assoc]; exact hs
  · rw [byteSize_append,hb]; rfl

end Places

section Rounds

variable {next : Cursor} {l : Lexeme} {rest : List Char}

theorem round_eq (hr : cursor.remainder? = some cs) (hn : Lexeme.next? cs = some (l,rest))
    (hfit : cursor.offset + byteSize l.text < 1 <<< 64) :
    cursor.round = (do
      Traced.emitAll (l.token?.toList.map .lexed)
      return cursor.behind l.text l.token?) := by
  obtain ⟨p,hp,hm,ht⟩ := Pattern.exists_first?_of_next? hn
  rw [round,hr,Traced.require_some,pure_bind]
  simp only [hp]
  rw [follow_eq hr hm hfit,ht]

theorem round_of_none (hr : cursor.remainder? = some cs) (hn : Lexeme.next? cs = none) :
    cursor.round =
      liftM (Traced.fail (.unrecognised (String.singleton (cs.headD '\x00'))) [] :
        Traced Cursor) := by
  have hc : cursor.current? = some (cs.headD '\x00') := by rw [current?,hr]; rfl
  rw [round,hr,Traced.require_some,pure_bind]
  simp only [Pattern.first?_eq_none hn,hc,Traced.require_some,pure_bind]

/-- A round that comes to something has read a lexeme, whether offsets run out later or not. -/
theorem exists_lexeme_of_round (hr : cursor.remainder? = some cs)
    (h : cursor.round.run.result = .ok (some next)) :
    ∃ l rest, Lexeme.next? cs = some (l,rest) ∧ next = cursor.behind l.text l.token? := by
  cases hn : Lexeme.next? cs with
  | none =>
    rw [round_of_none hr hn] at h
    cases h
  | some lr =>
    obtain ⟨l,rest⟩ := lr
    refine ⟨l,rest,rfl,?_⟩
    by_cases hfit : cursor.offset + byteSize l.text < 1 <<< 64
    · rw [round_eq hr hn hfit] at h
      cases h
      rfl
    · obtain ⟨p,hp,hm,-⟩ := Pattern.exists_first?_of_next? hn
      have hnone := result_follow_of_le hr hm (Nat.not_lt.1 hfit)
      rw [round,hr,Traced.require_some,pure_bind] at h
      simp only [hp] at h
      rw [hnone] at h
      cases h

theorem remainder?_of_round (hr : cursor.remainder? = some cs)
    (h : cursor.round.run.result = .ok (some next)) :
    next.source = cursor.source ∧ cursor.offset < next.offset ∧
      ∃ rest, next.remainder? = some rest := by
  obtain ⟨l,rest,hn,rfl⟩ := exists_lexeme_of_round hr h
  have hpos := byteSize_pos (Lexeme.text_ne_nil_of_next? hn)
  rw [← Lexeme.text_append_of_next? hn] at hr
  refine ⟨rfl,?_,rest,remainder?_behind hr⟩
  simp only [behind]; omega

theorem Visited.remainder? {source : List Char} {rounds : Nat} (h : Visited source rounds cursor) :
    cursor.source = source ∧ rounds ≤ cursor.offset ∧ ∃ rest, cursor.remainder? = some rest := by
  induction h with
  | start => exact ⟨rfl,Nat.le_refl _,source,remainder?_start source⟩
  | round _ _ hround ih =>
    obtain ⟨hs,hle,cs,hr⟩ := ih
    obtain ⟨hs',hlt,hrest⟩ := remainder?_of_round hr hround
    exact ⟨hs'.trans hs,by omega,hrest⟩

end Rounds

end Cursor

section Runs

def tokenizeBehind (found : List Token) (cs : List Char) : Traced (List Token) :=
  let tokens := (Lexeme.scan cs).1.filterMap Lexeme.token?
  do
    Traced.emitAll (tokens.map .lexed)
    match (Lexeme.scan cs).2 with
    | [] =>
      Traced.emit (.tokenized (found ++ tokens).length)
      pure (found ++ tokens)
    | c :: _ => Traced.fail (.unrecognised (String.singleton c)) []

theorem tokenize_eq_tokenizeBehind (source : String) :
    tokenize source = tokenizeBehind [] source.toList := rfl

theorem tokenizeBehind_of_next? {cs rest : List Char} {l : Lexeme}
    (h : Lexeme.next? cs = some (l,rest)) (found : List Token) :
    tokenizeBehind found cs = (do
      Traced.emitAll (l.token?.toList.map .lexed)
      tokenizeBehind (found ++ l.token?.toList) rest) := by
  have htokens : (l :: (Lexeme.scan rest).1).filterMap Lexeme.token? =
      l.token?.toList ++ (Lexeme.scan rest).1.filterMap Lexeme.token? := by
    cases ht : l.token? <;> simp [ht]
  have hemit : ∀ es fs : List Event, Traced.emitAll (es ++ fs) = (do
      Traced.emitAll es
      Traced.emitAll fs) := fun _ _ => rfl
  simp only [tokenizeBehind,Lexeme.scan_of_some h,htokens,List.map_append,hemit,bind_assoc,
    List.append_assoc]

theorem tokenizeBehind_of_none {c : Char} {cs : List Char}
    (h : Lexeme.next? (c :: cs) = none) (found : List Token) :
    tokenizeBehind found (c :: cs) = Traced.fail (.unrecognised (String.singleton c)) [] := by
  rw [tokenizeBehind,Lexeme.scan_of_none h]
  rfl

theorem completes_run_of_nil {cursor : Cursor} (hr : cursor.remainder? = some []) (rounds : Nat) :
    Traced.Completes (Cursor.run rounds cursor) (tokenizeBehind cursor.tokens []) := by
  have hrun : Cursor.run rounds cursor = liftM cursor.finish := by
    cases rounds <;> rw [Cursor.run,if_pos ((Cursor.atEnd_iff hr).2 rfl)]
  have htokens : tokenizeBehind cursor.tokens [] = cursor.finish := by
    rw [tokenizeBehind,Lexeme.scan_of_none rfl]
    simp only [List.filterMap_nil,List.append_nil]
    rfl
  rw [hrun,htokens]
  exact Traced.completes_lift _

/-- From wherever it stands the cursor reads what is left, in no more rounds than bytes. -/
theorem completes_run {cursor : Cursor} {cs : List Char} {rounds : Nat}
    (hr : cursor.remainder? = some cs) (hfit : byteSize cursor.source < 1 <<< 64)
    (hb : byteSize cs ≤ rounds) :
    Traced.Completes (Cursor.run rounds cursor) (tokenizeBehind cursor.tokens cs) := by
  induction rounds generalizing cursor cs with
  | zero =>
    obtain rfl : cs = [] := by
      by_contra hn
      have hpos := Cursor.byteSize_pos hn
      omega
    exact completes_run_of_nil hr 0
  | succ rounds ih =>
    by_cases hn : cs = []
    · subst hn
      exact completes_run_of_nil hr (rounds+1)
    · rw [Cursor.run,if_neg (mt (Cursor.atEnd_iff hr).1 hn)]
      cases hl : Lexeme.next? cs with
      | none =>
        obtain ⟨c,cs,rfl⟩ := List.exists_cons_of_ne_nil hn
        rw [Cursor.round_of_none hr hl,tokenizeBehind_of_none hl]
        exact Traced.completes_fail_bind _ _ _
      | some lr =>
        obtain ⟨l,rest⟩ := lr
        have hsum := Cursor.offset_add_byteSize hr
        have hpos := Cursor.byteSize_pos (Lexeme.text_ne_nil_of_next? hl)
        have htext := Lexeme.text_append_of_next? hl
        rw [← htext,byteSize_append] at hsum hb
        rw [tokenizeBehind_of_next? hl,Cursor.round_eq hr hl (by omega),bind_assoc]
        refine (Traced.completes_lift _).bind fun _ => ?_
        rw [pure_bind]
        rw [← htext] at hr
        exact ih (Cursor.remainder?_behind hr) hfit (by omega)

def StandsBetween (source text : List Char) (start stop : Nat) : Prop :=
  ∃ before after, source = before ++ text ++ after ∧ byteSize before = start ∧
    byteSize (before ++ text) = stop

theorem standsBetween_behind {cursor : Cursor} {text rest : List Char} {t? : Option Token}
    (hr : cursor.remainder? = some (text ++ rest)) :
    StandsBetween cursor.source text cursor.offset (cursor.behind text t?).offset := by
  obtain ⟨before,hs,hb⟩ := Cursor.remainder?_eq_some_iff.1 hr
  refine ⟨before,rest,by rw [hs,List.append_assoc],hb,?_⟩
  rw [byteSize_append,hb]; rfl

theorem tokens_of_round {cursor next : Cursor} {cs : List Char}
    (hr : cursor.remainder? = some cs) (h : cursor.round.run.result = .ok (some next)) :
    next.tokens = cursor.tokens ∨ ∃ t, next.tokens = cursor.tokens ++ [t] ∧
      StandsBetween cursor.source t.text.toList cursor.offset next.offset := by
  obtain ⟨l,rest,hn,rfl⟩ := Cursor.exists_lexeme_of_round hr h
  cases ht : l.token? with
  | none => exact .inl (by simp [Cursor.behind])
  | some t =>
    refine .inr ⟨t,rfl,?_⟩
    rw [← Lexeme.text_append_of_next? hn] at hr
    rw [Lexeme.text_of_token? ht]
    exact standsBetween_behind hr

/-- At the start of every round, and at the end, the cursor stands inside the text and between two
characters, so what is left of the text and the character there can be read. A round that does not
fail moves it on and records one token at most, with the text it has moved over, so there are no more
rounds than bytes. For a text whose length is an offset itself they make up the tokenizer. -/
theorem tokenize_by_rounds (source : String) :
    (∀ rounds cursor, Cursor.Visited source.toList rounds cursor →
      cursor.offset ≤ byteSize source.toList ∧
      (∃ before after, source.toList = before ++ after ∧ byteSize before = cursor.offset ∧
        cursor.remainder? = some after ∧ cursor.current? = some (after.headD '\x00')) ∧
      rounds ≤ cursor.offset ∧
      (cursor.atEnd = false → rounds < byteSize source.toList ∧
        ∀ next, cursor.round.run.result = .ok (some next) →
          cursor.offset < next.offset ∧
          (next.tokens = cursor.tokens ∨ ∃ t, next.tokens = cursor.tokens ++ [t] ∧
            StandsBetween source.toList t.text.toList cursor.offset next.offset))) ∧
    (byteSize source.toList < 1 <<< 64 →
      (Cursor.run (byteSize source.toList) (Cursor.start source.toList)).run =
        some <$> tokenize source) := by
  refine ⟨?_,?_⟩
  · intro rounds cursor hv
    obtain ⟨hs,hle,cs,hr⟩ := hv.remainder?
    have hsum := Cursor.offset_add_byteSize hr
    obtain ⟨before,hsource,hb⟩ := Cursor.remainder?_eq_some_iff.1 hr
    rw [← hs]
    refine ⟨by omega,⟨before,cs,hsource,hb,hr,by rw [Cursor.current?,hr]; rfl⟩,hle,?_⟩
    intro he
    have hn : cs ≠ [] := by
      intro hn
      rw [(Cursor.atEnd_iff hr).2 hn] at he
      cases he
    have hpos := Cursor.byteSize_pos hn
    refine ⟨by omega,?_⟩
    intro next hround
    exact ⟨(Cursor.remainder?_of_round hr hround).2.1,tokens_of_round hr hround⟩
  · intro hfit
    have hr : (Cursor.start source.toList).remainder? = some source.toList :=
      Cursor.remainder?_start _
    rw [tokenize_eq_tokenizeBehind]
    exact completes_run hr hfit (Nat.le_refl _)

/-- The accented letter takes two bytes, so the comment ends at byte 5 and the name at byte 7. -/
theorem tokenize_by_rounds_comment :
    (∃ before after, "// é\nx".toList = before ++ after ∧ byteSize before = 6 ∧
      (⟨"// é\nx".toList,6,[]⟩ : Cursor).remainder? = some after ∧
      (⟨"// é\nx".toList,6,[]⟩ : Cursor).current? = some (after.headD '\x00')) ∧
    StandsBetween "// é\nx".toList ['x'] 6 7 ∧
    (Cursor.run 7 (Cursor.start "// é\nx".toList)).run = some <$> tokenize "// é\nx" := by
  have hone : Cursor.Visited "// é\nx".toList 1 ⟨"// é\nx".toList,5,[]⟩ :=
    .round .start (by decide) rfl
  have htwo : Cursor.Visited "// é\nx".toList 2 ⟨"// é\nx".toList,6,[]⟩ :=
    .round hone (by decide) rfl
  have hthree : (⟨"// é\nx".toList,6,[]⟩ : Cursor).round.run.result =
      .ok (some ⟨"// é\nx".toList,7,[⟨.ident,"x"⟩]⟩) := rfl
  obtain ⟨hvisited,hrun⟩ := tokenize_by_rounds "// é\nx"
  obtain ⟨-,hplace,-,hround⟩ := hvisited 2 _ htwo
  obtain ⟨-,htoken⟩ := (hround (by decide)).2 _ hthree
  refine ⟨hplace,?_,hrun (by decide)⟩
  rcases htoken with h | ⟨t,h,hs⟩
  · cases h
  · cases h
    exact hs

end Runs

end LetPrint
