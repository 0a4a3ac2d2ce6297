import LetPrint.Event
import LetPrint.Fault

/-!
Computations that leave a trace: the events in the order they happened, and a value or the error
that ended them. Nothing happens after an error.
-/

set_option autoImplicit false

namespace LetPrint

structure Traced (α : Type) where
  events : List Event
  result : Except SyntaxError α

namespace Traced

variable {α β γ : Type}

protected def pure (a : α) : Traced α := ⟨[],.ok a⟩

protected def bind (x : Traced α) (f : α → Traced β) : Traced β :=
  match x.result with
  | .error e => ⟨x.events,.error e⟩
  | .ok a =>
    let y := f a
    ⟨x.events ++ y.events,y.result⟩

instance : Monad Traced where
  pure := Traced.pure
  bind := Traced.bind

def emit (e : Event) : Traced Unit := ⟨[e],.ok ()⟩

def emitAll (events : List Event) : Traced Unit := ⟨events,.ok ()⟩

def fail (fault : Fault) (tokens : List Token) : Traced α := ⟨[],.error ⟨fault,tokens⟩⟩

def ofResult (result : Except SyntaxError α) : Traced α := ⟨[],result⟩

@[simp] theorem result_ofResult (r : Except SyntaxError α) : (ofResult r).result = r := rfl

@[simp] theorem events_ofResult (r : Except SyntaxError α) : (ofResult r).events = [] := rfl

@[simp] theorem result_pure (a : α) : (pure a : Traced α).result = .ok a := rfl

@[simp] theorem events_pure (a : α) : (pure a : Traced α).events = [] := rfl

@[simp] theorem result_emit (e : Event) : (emit e).result = .ok () := rfl

@[simp] theorem events_emit (e : Event) : (emit e).events = [e] := rfl

@[simp] theorem result_emitAll (events : List Event) : (emitAll events).result = .ok () := rfl

@[simp] theorem events_emitAll (events : List Event) : (emitAll events).events = events := rfl

@[simp] theorem result_fail (fault : Fault) (ts : List Token) :
    (fail fault ts : Traced α).result = .error ⟨fault,ts⟩ := rfl

@[simp] theorem events_fail (fault : Fault) (ts : List Token) :
    (fail fault ts : Traced α).events = [] := rfl

/-- The result of a sequence is the sequence of the results: the trace never decides it. -/
theorem result_bind (x : Traced α) (f : α → Traced β) :
    (x >>= f).result = x.result.bind fun a => (f a).result := by
  obtain ⟨es,r⟩ := x
  cases r <;> rfl

theorem bind_of_ok {x : Traced α} {a : α} (h : x.result = .ok a) (f : α → Traced β) :
    x >>= f = ⟨x.events ++ (f a).events,(f a).result⟩ := by
  obtain ⟨es,r⟩ := x
  cases h; rfl

theorem bind_of_error {x : Traced α} {e : SyntaxError} (h : x.result = .error e)
    (f : α → Traced β) : x >>= f = ⟨x.events,.error e⟩ := by
  obtain ⟨es,r⟩ := x
  cases h; rfl

instance : LawfulMonad Traced := LawfulMonad.mk' Traced
  (by rintro α ⟨es,_ | a⟩ <;> simp [Functor.map,Traced.bind,Traced.pure])
  (by intros; simp [Bind.bind,Pure.pure,Traced.bind,Traced.pure])
  (by
    rintro α β γ ⟨es,_ | a⟩ f g
    · rfl
    · simp only [Bind.bind,Traced.bind]
      cases (f a).result <;> simp [List.append_assoc])

end Traced

end LetPrint
