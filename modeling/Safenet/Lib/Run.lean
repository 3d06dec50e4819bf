/-
# Runs

Two kinds of run, and the induction each is reasoned about with.

* A REACTIVE machine is a function `σ → μ → σ × List ω`: it consumes one message and answers
  with outputs.  `runState` folds it over a list of messages, `runOutputs` collects what it
  said, and `runState_induction` proves a property of the state together with the messages
  consumed so far.
* A LABELLED relation `σ → ℓ → σ → Prop` is for a system whose environment chooses.  `Run` is
  its list of labels, and `Run.induction` is the same rule.

Both rules carry the HISTORY: an invariant that relates the state to the past is proved with
the same two goals as one about the state alone.

`Since` is the temporal operator both are used with: something happened in the past, and
something else has held ever since.

Section 4 is for steps written in `Except`: what a computation that returned did on the way.
-/
import Mathlib

namespace Reactive

variable {σ μ ω : Type*} (step : σ → μ → σ × List ω)

/-! ## 1. Reactive machines -/

/-- The state after a list of messages. -/
def runState (s : σ) (ms : List μ) : σ := ms.foldl (fun s m => (step s m).1) s

/-- The outputs along a list of messages, in order. -/
def runOutputs (s : σ) : List μ → List ω
  | [] => []
  | m :: ms => (step s m).2 ++ runOutputs (step s m).1 ms

@[simp] theorem runState_nil (s : σ) : runState step s [] = s := rfl

@[simp] theorem runState_cons (s : σ) (m : μ) (ms : List μ) :
    runState step s (m :: ms) = runState step (step s m).1 ms := rfl

@[simp] theorem runState_append (s : σ) (ms ns : List μ) :
    runState step s (ms ++ ns) = runState step (runState step s ms) ns := by
  simp [runState, List.foldl_append]

theorem runOutputs_append (s : σ) (ms ns : List μ) :
    runOutputs step s (ms ++ ns) = runOutputs step s ms ++ runOutputs step (runState step s ms) ns := by
  induction ms generalizing s with
  | nil => rfl
  | cons m ms ih => simp only [List.cons_append, runOutputs, ih, runState_cons, List.append_assoc]

/-- **The run rule.**  A property of the past and the state, true at the start and kept by one
step, holds after every run. -/
theorem runState_induction {s : σ} (I : List μ → σ → Prop) (h0 : I [] s)
    (hs : ∀ (past : List μ) (t : σ) (m : μ), I past t → I (past ++ [m]) (step t m).1) :
    ∀ ms : List μ, I ms (runState step s ms) := by
  intro ms
  induction ms using List.reverseRecOn with
  | nil => exact h0
  | append_singleton ms m ih =>
    rw [runState_append]
    exact hs ms _ m ih

/-- The run rule for runs whose messages satisfy a condition on the past they arrive after. -/
theorem runState_induction_of {s : σ} (I : List μ → σ → Prop) (ok : List μ → μ → Prop)
    (h0 : I [] s)
    (hs : ∀ (past : List μ) (t : σ) (m : μ), I past t → ok past m → I (past ++ [m]) (step t m).1)
    (ms : List μ) (hok : ∀ past m rest, ms = past ++ m :: rest → ok past m) :
    I ms (runState step s ms) := by
  induction ms using List.reverseRecOn with
  | nil => exact h0
  | append_singleton ms m ih =>
    rw [runState_append]
    refine hs ms _ m (ih fun past m' rest h => hok past m' (rest ++ [m]) ?_) (hok ms m [] rfl)
    rw [h, List.append_assoc, List.cons_append]

/-- Every output of a run was said by one step of it. -/
theorem mem_runOutputs {s : σ} {ms : List μ} {o : ω} (h : o ∈ runOutputs step s ms) :
    ∃ past m rest, ms = past ++ m :: rest ∧ o ∈ (step (runState step s past) m).2 := by
  induction ms generalizing s with
  | nil => exact absurd h (by simp [runOutputs])
  | cons m ms ih =>
    rcases List.mem_append.mp h with h | h
    · exact ⟨[], m, ms, rfl, h⟩
    · obtain ⟨past, m', rest, rfl, ho⟩ := ih h
      exact ⟨m :: past, m', rest, rfl, ho⟩

/-- Where an output was said, when a step says one thing at most. -/
theorem runOutputs_split (hone : ∀ s m, (step s m).2.length ≤ 1) {s : σ} {ms : List μ}
    {past rest : List ω} {o : ω} (h : runOutputs step s ms = past ++ o :: rest) :
    ∃ before m after, ms = before ++ m :: after ∧ runOutputs step s before = past ∧
      (step (runState step s before) m).2 = [o] := by
  induction ms generalizing s past with
  | nil => exact absurd h (by simp [runOutputs])
  | cons m ms ih =>
    have hsays := hone s m
    match hsaid : (step s m).2, hsays with
    | [], _ =>
      rw [runOutputs, hsaid, List.nil_append] at h
      obtain ⟨before, m', after, rfl, hpast, hlast⟩ := ih h
      exact ⟨m :: before, m', after, rfl, by rw [runOutputs, hsaid, hpast, List.nil_append], hlast⟩
    | [o'], _ =>
      rw [runOutputs, hsaid, List.singleton_append] at h
      cases past with
      | nil =>
        obtain ⟨rfl, -⟩ := List.cons.inj h
        exact ⟨[], m, ms, rfl, rfl, hsaid⟩
      | cons o'' past =>
        obtain ⟨rfl, hrest⟩ := List.cons.inj h
        obtain ⟨before, m', after, rfl, hpast, hlast⟩ := ih hrest
        exact ⟨m :: before, m', after, rfl,
          by rw [runOutputs, hsaid, hpast, List.singleton_append], hlast⟩

/-- Every message of a run comes in a state in which it meets a condition. -/
def Along (p : σ → μ → Prop) (s : σ) : List μ → Prop
  | [] => True
  | m :: ms => p s m ∧ Along p (step s m).1 ms

instance decidableAlong (p : σ → μ → Prop) [∀ s m, Decidable (p s m)] (s : σ) :
    (ms : List μ) → Decidable (Along step p s ms)
  | [] => isTrue trivial
  | m :: ms =>
    haveI := decidableAlong p (step s m).1 ms
    inferInstanceAs (Decidable (_ ∧ _))

/-- Some message of a run comes in a state in which it meets a condition. -/
def Sometime (p : σ → μ → Prop) (s : σ) : List μ → Prop
  | [] => False
  | m :: ms => p s m ∨ Sometime p (step s m).1 ms

instance decidableSometime (p : σ → μ → Prop) [∀ s m, Decidable (p s m)] (s : σ) :
    (ms : List μ) → Decidable (Sometime step p s ms)
  | [] => isFalse not_false
  | m :: ms =>
    haveI := decidableSometime p (step s m).1 ms
    inferInstanceAs (Decidable (_ ∨ _))

/-- **The run rule for messages that meet a condition**: what they keep holds at the end, and what it
implies of a message holds of each. -/
theorem Along.induction {step : σ → μ → σ × List ω} {p q : σ → μ → Prop} {I : σ → Prop} {s : σ}
    {ms : List μ} (h : Along step p s ms) (h0 : I s) (hs : ∀ t m, I t → p t m → I (step t m).1 ∧ q t m) :
    I (runState step s ms) ∧ Along step q s ms := by
  induction ms generalizing s with
  | nil => exact ⟨h0, trivial⟩
  | cons m ms ih =>
    obtain ⟨hm, hms⟩ := h
    obtain ⟨hnext, hq⟩ := hs s m h0 hm
    obtain ⟨hend, halong⟩ := ih hms hnext
    exact ⟨hend, hq, halong⟩

end Reactive

/-! ## 2. Since -/

/-- `event` happened at some message of the history, and `keep` has held after it and after
every message since. -/
def Since {μ : Type*} (event : List μ → μ → Prop) (keep : List μ → Prop) (history : List μ) :
    Prop :=
  ∃ past m rest, history = past ++ m :: rest ∧ event past m ∧
    ∀ p, p <+: rest → keep (past ++ m :: p)

namespace Since

variable {μ : Type*} {event : List μ → μ → Prop} {keep : List μ → Prop} {history : List μ}

/-- It happens now. -/
theorem now {m : μ} (h : event history m) (hk : keep (history ++ [m])) :
    Since event keep (history ++ [m]) := by
  refine ⟨history, m, [], rfl, h, fun p hp => ?_⟩
  rw [List.prefix_nil.mp hp]
  exact hk

/-- It happened, and what has to be kept is kept by one more message. -/
theorem later {m : μ} (h : Since event keep history) (hk : keep (history ++ [m])) :
    Since event keep (history ++ [m]) := by
  obtain ⟨past, m', rest, rfl, he, hrest⟩ := h
  have happ : past ++ m' :: rest ++ [m] = past ++ m' :: (rest ++ [m]) := by simp
  refine ⟨past, m', rest ++ [m], happ, he, fun p hp => ?_⟩
  rcases List.prefix_concat_iff.mp hp with rfl | hp
  · rw [← happ]
    exact hk
  · exact hrest p hp

end Since

/-! ## 3. Labelled runs -/

variable {σ ℓ : Type*}

/-- A run of a labelled relation, with the labels it took. -/
inductive Run (step : σ → ℓ → σ → Prop) (s : σ) : List ℓ → σ → Prop where
  | refl : Run step s [] s
  | tail {ls : List ℓ} {t u : σ} {l : ℓ} : Run step s ls t → step t l u → Run step s (ls ++ [l]) u

namespace Run

variable {step : σ → ℓ → σ → Prop}

/-- **The labelled run rule.** -/
theorem induction {s t : σ} {ls : List ℓ} (I : List ℓ → σ → Prop) (h0 : I [] s)
    (hs : ∀ (past : List ℓ) (t u : σ) (l : ℓ), I past t → step t l u → I (past ++ [l]) u)
    (h : Run step s ls t) : I ls t := by
  induction h with
  | refl => exact h0
  | tail _ hst ih => exact hs _ _ _ _ ih hst

/-- The last step of a run. -/
theorem of_concat {s u : σ} {ls : List ℓ} {l : ℓ} (h : Run step s (ls ++ [l]) u) :
    ∃ t, Run step s ls t ∧ step t l u := by
  generalize hall : ls ++ [l] = all at h
  cases h with
  | refl => exact absurd hall (by simp)
  | tail hrun hst =>
    obtain ⟨rfl, hl⟩ := List.append_inj' hall rfl
    rw [List.cons.injEq] at hl
    exact ⟨_, hrun, hl.1 ▸ hst⟩

/-- A run passes through every prefix of its labels. -/
theorem split {s u : σ} {ls ls' : List ℓ} (h : Run step s (ls ++ ls') u) :
    ∃ t, Run step s ls t ∧ Run step t ls' u := by
  induction ls' using List.reverseRecOn generalizing u with
  | nil => exact ⟨u, (List.append_nil ls) ▸ h, .refl⟩
  | append_singleton ls' l ih =>
    rw [← List.append_assoc] at h
    obtain ⟨v, hrun, hst⟩ := of_concat h
    obtain ⟨t, hleft, hright⟩ := ih hrun
    exact ⟨t, hleft, hright.tail hst⟩

/-- Runs compose. -/
theorem trans {s t u : σ} {ls ls' : List ℓ} (h : Run step s ls t) (h' : Run step t ls' u) :
    Run step s (ls ++ ls') u := by
  induction h' with
  | refl => rwa [List.append_nil]
  | tail _ hst ih =>
    rw [← List.append_assoc]
    exact .tail ih hst

end Run

/-! ## 4. Computations that return -/

namespace Except

variable {ε ε' α β : Type}

/-- A sequence returns exactly when each part does. -/
theorem bind_eq_ok {x : Except ε α} {f : α → Except ε β} {b : β} :
    (x >>= f) = .ok b ↔ ∃ a, x = .ok a ∧ f a = .ok b := by
  cases x <;> simp [bind, Except.bind]

theorem pure_eq_ok {a b : α} : (pure a : Except ε α) = .ok b ↔ a = b := by
  simp [pure, Except.pure]

theorem throw_ne_ok {e : ε} {a : α} : (throw e : Except ε α) ≠ .ok a := by
  simp [throw, throwThe, MonadExceptOf.throw]

theorem map_eq_ok {x : Except ε α} {f : α → β} {b : β} :
    x.map f = .ok b ↔ ∃ a, x = .ok a ∧ f a = b := by
  cases x <;> simp [Except.map]

theorem mapError_eq_ok {x : Except ε α} {f : ε → ε'} {a : α} :
    x.mapError f = .ok a ↔ x = .ok a := by
  cases x <;> simp [Except.mapError]

/-- A sequence fails exactly when one of its parts does. -/
theorem bind_eq_error {x : Except ε α} {f : α → Except ε β} {e : ε} :
    (x >>= f) = .error e ↔ x = .error e ∨ ∃ a, x = .ok a ∧ f a = .error e := by
  cases x <;> simp [bind, Except.bind]

/-- What fails along a list fails at one of its elements. -/
theorem mapM_eq_error {f : α → Except ε β} {xs : List α} {e : ε} (h : xs.mapM f = .error e) :
    ∃ x ∈ xs, f x = .error e := by
  induction xs with
  | nil => exact absurd h (by simp [pure, Except.pure])
  | cons x xs ih =>
    rw [List.mapM_cons, bind_eq_error] at h
    rcases h with h | ⟨y, -, h⟩
    · exact ⟨x, List.mem_cons_self, h⟩
    · rcases bind_eq_error.mp h with h | ⟨ys, -, h⟩
      · obtain ⟨x', hx', herror⟩ := ih h
        exact ⟨x', List.mem_cons_of_mem _ hx', herror⟩
      · exact absurd h (by simp [pure, Except.pure])

end Except
