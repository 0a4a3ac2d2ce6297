import LetPrint.Traced

/-!
Computations that may come to nothing: a bound runs out, or something is required that is not there.
Such a computation completes one without any conditions if it does the same and never comes to
nothing, with the same events and the same value or error.
-/

set_option autoImplicit false

namespace LetPrint.Traced

variable {α β : Type}

def require (x : Option α) : OptionT Traced α := OptionT.mk (pure x)

@[simp] theorem require_some (a : α) : require (some a) = pure a := rfl

@[simp] theorem require_none : require (none : Option α) = failure := rfl

/-- The conditional computation does what the other one does, and never comes to nothing. -/
def Completes (x : OptionT Traced α) (y : Traced α) : Prop := x.run = some <$> y

theorem completes_lift (y : Traced α) : Completes (liftM y) y := OptionT.run_lift y

theorem completes_pure (a : α) : Completes (pure a) (pure a) := by
  simp [Completes]

theorem completes_fail_bind (fault : Fault) (ts : List Token) (f : α → OptionT Traced β) :
    Completes (liftM (fail fault ts : Traced α) >>= f) (fail fault ts) := rfl

theorem Completes.bind {x : OptionT Traced α} {y : Traced α} {f : α → OptionT Traced β}
    {g : α → Traced β} (hx : Completes x y) (hf : ∀ a, Completes (f a) (g a)) :
    Completes (x >>= f) (y >>= g) := by
  have hf : ∀ a, (f a).run = some <$> g a := hf
  rw [Completes] at hx
  simp [Completes,OptionT.run_bind,hx,Option.elimM,hf]

theorem Completes.require_bind {x : Option α} {a : α} {f : α → OptionT Traced β} {y : Traced β}
    (hx : x = some a) (h : Completes (f a) y) : Completes (require x >>= f) y := by
  rw [hx,require_some,pure_bind]
  exact h

theorem completes_mapM {f : α → OptionT Traced β} {g : α → Traced β} {as : List α}
    (h : ∀ a ∈ as, Completes (f a) (g a)) : Completes (as.mapM f) (as.mapM g) := by
  induction as with
  | nil => exact completes_pure []
  | cons a as ih =>
    rw [List.mapM_cons,List.mapM_cons]
    refine (h a (by simp)).bind fun b => ?_
    exact (ih fun a ha => h a (by simp [ha])).bind fun bs => completes_pure (b :: bs)

end LetPrint.Traced
