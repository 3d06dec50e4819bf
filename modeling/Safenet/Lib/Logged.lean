/-
# Programs that fail and keep a log

A program on a state that may fail, and writes a log of the operations it performs.  A failure keeps
what was done before it, as with durable writes.

What a program does is described by a relation `R s log s'` of the state before, the log, and the
state after.  If `R` holds of doing nothing and composes (`Composes`), it holds of a program when it
holds of its parts (`Satisfies`): there is one rule for each way to build a program.
-/
import Mathlib.Data.List.Basic

/-- A program on a state `σ` with a log of `ω` that may fail with `ε`. -/
def Logged (σ ω ε α : Type) : Type := σ → σ × List ω × Except ε α

namespace Logged

variable {σ ω ε α β : Type}

instance : Monad (Logged σ ω ε) where
  pure a := fun s => (s, [], .ok a)
  bind m f := fun s =>
    match m s with
    | (s, log, .ok a) => ((f a s).1, log ++ (f a s).2.1, (f a s).2.2)
    | (s, log, .error e) => (s, log, .error e)

/-- The state. -/
def get : Logged σ ω ε σ := fun s => (s, [], .ok s)

/-- Change the state. -/
def modify (f : σ → σ) : Logged σ ω ε Unit := fun s => (f s, [], .ok ())

/-- Change the state by an operation that is logged. -/
def perform (f : σ → σ) (op : ω) : Logged σ ω ε Unit := fun s => (f s, [op], .ok ())

/-- Fail. -/
def throw (e : ε) : Logged σ ω ε α := fun s => (s, [], .error e)

/-- A result, or a failure. -/
def lift (result : Except ε α) : Logged σ ω ε α := fun s => (s, [], result)

/-- The state after. -/
def after (m : Logged σ ω ε α) (s : σ) : σ := (m s).1

/-- The operations performed. -/
def log (m : Logged σ ω ε α) (s : σ) : List ω := (m s).2.1

/-- The result. -/
def result (m : Logged σ ω ε α) (s : σ) : Except ε α := (m s).2.2

/-- A relation that holds of doing nothing, and composes. -/
structure Composes (R : σ → List ω → σ → Prop) : Prop where
  refl : ∀ s, R s [] s
  trans : ∀ {s s' s'' : σ} {l l' : List ω}, R s l s' → R s' l' s'' → R s (l ++ l') s''

/-- To read the state is to go on with it. -/
theorem get_bind (f : σ → Logged σ ω ε α) (s : σ) : (get >>= f) s = f s s := rfl

theorem modify_bind (g : σ → σ) (f : Unit → Logged σ ω ε α) (s : σ) :
    (modify g >>= f) s = f () (g s) := rfl

/-- A part that returns, and what follows. -/
theorem log_bind {m : Logged σ ω ε α} {f : α → Logged σ ω ε β} {s : σ} {a : α}
    (h : m.result s = .ok a) : (m >>= f).log s = m.log s ++ (f a).log (m.after s) := by
  simp only [result, log, after, Bind.bind] at h ⊢
  rcases hms : m s with ⟨s', l, e | a'⟩ <;> rw [hms] at h
  · exact absurd h (by simp)
  · obtain rfl := Except.ok.inj h
    rfl

theorem after_bind {m : Logged σ ω ε α} {f : α → Logged σ ω ε β} {s : σ} {a : α}
    (h : m.result s = .ok a) : (m >>= f).after s = (f a).after (m.after s) := by
  simp only [result, after, Bind.bind] at h ⊢
  rcases hms : m s with ⟨s', l, e | a'⟩ <;> rw [hms] at h
  · exact absurd h (by simp)
  · obtain rfl := Except.ok.inj h
    rfl

/-- A part that fails is the last. -/
theorem after_bind_error {m : Logged σ ω ε α} {f : α → Logged σ ω ε β} {s : σ} {e : ε}
    (h : m.result s = .error e) : (m >>= f).after s = m.after s := by
  simp only [result, after, Bind.bind] at h ⊢
  rcases hms : m s with ⟨s', l, e' | a⟩
  · rfl
  · rw [hms] at h
    exact absurd h (by simp)

/-- The log is that of the first part, and of the second if it comes to that. -/
theorem log_bind_cases (m : Logged σ ω ε α) (f : α → Logged σ ω ε β) (s : σ) :
    (m >>= f).log s = m.log s ∨
      ∃ a, m.result s = .ok a ∧ (m >>= f).log s = m.log s ++ (f a).log (m.after s) := by
  cases h : m.result s with
  | error e =>
    refine .inl ?_
    simp only [result, log, Bind.bind] at h ⊢
    rcases hms : m s with ⟨s', l, e | a⟩
    · rfl
    · rw [hms] at h
      exact absurd h (by simp)
  | ok a => exact .inr ⟨a, rfl, log_bind h⟩

/-- One part after the other, from one state. -/
theorem Composes.bind_at {R : σ → List ω → σ → Prop} (hR : Composes R) {m : Logged σ ω ε α}
    {f : α → Logged σ ω ε β} {s : σ} (hm : R s (m.log s) (m.after s))
    (hf : ∀ a, m.result s = .ok a → R (m.after s) ((f a).log (m.after s)) ((f a).after (m.after s))) :
    R s ((m >>= f).log s) ((m >>= f).after s) := by
  simp only [log, after, result, Bind.bind] at hm hf ⊢
  rcases hms : m s with ⟨s', l, e | a⟩ <;> rw [hms] at hm hf
  · exact hm
  · exact hR.trans hm (hf a rfl)

/-- What a program does is as the relation says. -/
def Satisfies (R : σ → List ω → σ → Prop) (m : Logged σ ω ε α) : Prop :=
  ∀ s, R s (m.log s) (m.after s)

namespace Satisfies

variable {R : σ → List ω → σ → Prop}

theorem pure (hR : Composes R) (a : α) : Satisfies R (Pure.pure a : Logged σ ω ε α) := hR.refl

theorem get (hR : Composes R) : Satisfies R (Logged.get : Logged σ ω ε σ) := hR.refl

theorem throw (hR : Composes R) (e : ε) : Satisfies R (Logged.throw e : Logged σ ω ε α) := hR.refl

theorem lift (hR : Composes R) (result : Except ε α) :
    Satisfies R (Logged.lift result : Logged σ ω ε α) := hR.refl

theorem modify {f : σ → σ} (h : ∀ s, R s [] (f s)) :
    Satisfies R (Logged.modify f : Logged σ ω ε Unit) := h

theorem perform {f : σ → σ} {op : ω} (h : ∀ s, R s [op] (f s)) :
    Satisfies R (Logged.perform f op : Logged σ ω ε Unit) := h

/-- One part after the other. -/
theorem bind (hR : Composes R) {m : Logged σ ω ε α} {f : α → Logged σ ω ε β} (hm : Satisfies R m)
    (hf : ∀ a, Satisfies R (f a)) : Satisfies R (m >>= f) :=
  fun s => hR.bind_at (hm s) fun a _ => hf a _

/-- Each of some parts. -/
theorem forM (hR : Composes R) {xs : List α} {f : α → Logged σ ω ε Unit}
    (hf : ∀ x ∈ xs, Satisfies R (f x)) : Satisfies R (xs.forM f) := by
  induction xs with
  | nil => exact pure hR ()
  | cons x xs ih =>
    exact bind hR (hf x List.mem_cons_self) fun _ => ih fun y hy => hf y (List.mem_cons_of_mem _ hy)

end Satisfies

/-- No more than so many of its operations are of a kind. -/
def AtMost (p : ω → Bool) (n : Nat) (m : Logged σ ω ε α) : Prop := ∀ s, (m.log s).countP p ≤ n

namespace AtMost

variable {p : ω → Bool} {n k : Nat}

theorem silent {m : Logged σ ω ε α} (h : ∀ s, m.log s = []) : AtMost p 0 m := by
  intro s
  rw [h s]
  exact Nat.le_refl _

theorem perform {f : σ → σ} {op : ω} : AtMost p 1 (Logged.perform f op : Logged σ ω ε Unit) :=
  fun _ => List.countP_le_length

/-- One part after the other. -/
theorem bind {m : Logged σ ω ε α} {f : α → Logged σ ω ε β} (hm : AtMost p n m)
    (hf : ∀ a, AtMost p k (f a)) : AtMost p (n + k) (m >>= f) := by
  intro s
  rcases log_bind_cases m f s with h | ⟨a, -, h⟩
  · rw [h]
    exact Nat.le_trans (hm s) (Nat.le_add_right _ _)
  · rw [h, List.countP_append]
    exact Nat.add_le_add (hm s) (hf a _)

end AtMost

end Logged
