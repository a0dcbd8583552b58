import Formula.Program.Run
import Mathlib.Order.CompleteBooleanAlgebra
import Mathlib.Order.CompletePartialOrder

/-!
Contracts of computations with a state. What holds of a state may depend on an index that grows as the
computation goes on, such as the objects known so far.
-/

namespace Formula

section

variable {ε σ α β : Type} {x : EStateM ε σ α} {f : α → EStateM ε σ β} {s s' : σ}

theorem run_bind_of_ok {a : α} (h : x s = .ok a s') : (x >>= f) s = f a s' := by
  change EStateM.bind x f s = _
  rw [EStateM.bind, h]

theorem run_bind_of_error {e : ε} (h : x s = .error e s') : (x >>= f) s = .error e s' := by
  change EStateM.bind x f s = _
  rw [EStateM.bind, h]

theorem ok_of_run_bind {b : β} (h : (x >>= f) s = .ok b s') :
    ∃ a s'', x s = .ok a s'' ∧ f a s'' = .ok b s' := by
  cases hr : x s with
  | ok a s'' => exact ⟨a, s'', rfl, by rwa [run_bind_of_ok hr] at h⟩
  | error e s'' =>
      rw [run_bind_of_error hr] at h
      cases h

end

structure Contract (ι ε σ : Type) where
  state : ι → σ → Prop
  error : ε → Prop

namespace Contract

variable {ι ε σ α β : Type} [Preorder ι]

/-- The outcome of a computation that began at an index. -/
def Meets (C : Contract ι ε σ) (Q : ι → α → Prop) (i : ι) : EStateM.Result ε σ α → Prop
  | .ok a s => ∃ j, i ≤ j ∧ C.state j s ∧ Q j a
  | .error e s => C.error e ∧ ∃ j, i ≤ j ∧ C.state j s

/-- From a state that the contract allows at any later index, the computation ends in one, with a
result of which `Q` holds or an error that is allowed. -/
def Keeps (C : Contract ι ε σ) (i : ι) (x : EStateM ε σ α) (Q : ι → α → Prop) : Prop :=
  ∀ j, i ≤ j → ∀ s, C.state j s → C.Meets Q j (x s)

variable {C : Contract ι ε σ} {i j : ι} {x : EStateM ε σ α} {Q Q' : ι → α → Prop}

theorem Keeps.pure {a : α} (h : ∀ j, i ≤ j → Q j a) : C.Keeps i (pure a) Q :=
  fun j hij _ hs => ⟨j, le_rfl, hs, h j hij⟩

theorem Keeps.throw {e : ε} (h : C.error e) : C.Keeps i (throw e) Q :=
  fun j _ _ hs => ⟨h, j, le_rfl, hs⟩

theorem Keeps.get : C.Keeps i (get : EStateM ε σ σ) C.state :=
  fun j _ _ hs => ⟨j, le_rfl, hs, hs⟩

theorem Keeps.mono (h : C.Keeps i x Q) (hij : i ≤ j) : C.Keeps j x Q :=
  fun k hk => h k (hij.trans hk)

theorem Keeps.imp (h : C.Keeps i x Q) (hQ : ∀ j a, i ≤ j → Q j a → Q' j a) : C.Keeps i x Q' := by
  intro j hij s hs
  have hx := h j hij s hs
  cases hr : x s with
  | ok a t =>
      rw [hr] at hx
      obtain ⟨k, hjk, ht, hq⟩ := hx
      exact ⟨k, hjk, ht, hQ k a (hij.trans hjk) hq⟩
  | error e t => rw [hr] at hx; exact hx

theorem Meets.of_ok {s s' : σ} {a : α} (h : C.Meets Q i (x s)) (hx : x s = .ok a s') :
    ∃ j, i ≤ j ∧ C.state j s' ∧ Q j a := by
  rw [hx] at h
  exact h

/-- What goes on from the state in which a computation ended well. -/
theorem Meets.bind {s : σ} {f : α → EStateM ε σ β} {R : ι → β → Prop} (hx : C.Meets Q i (x s))
    (hf : ∀ j a s', x s = .ok a s' → i ≤ j → C.state j s' → Q j a → C.Meets R j (f a s')) :
    C.Meets R i ((x >>= f) s) := by
  cases hr : x s with
  | ok a s' =>
      rw [hr] at hx
      obtain ⟨j, hij, hs', ha⟩ := hx
      have h := hf j a s' hr hij hs' ha
      rw [run_bind_of_ok hr]
      cases hr' : f a s' with
      | ok b s'' =>
          rw [hr'] at h
          obtain ⟨k, hjk, hs'', hb⟩ := h
          exact ⟨k, hij.trans hjk, hs'', hb⟩
      | error e s'' =>
          rw [hr'] at h
          obtain ⟨he, k, hjk, hs''⟩ := h
          exact ⟨he, k, hij.trans hjk, hs''⟩
  | error e s' =>
      rw [hr] at hx
      rw [run_bind_of_error hr]
      exact hx

theorem Keeps.bind {f : α → EStateM ε σ β} {R : ι → β → Prop} (hx : C.Keeps i x Q)
    (hf : ∀ j a, i ≤ j → Q j a → C.Keeps j (f a) R) : C.Keeps i (x >>= f) R :=
  fun j hij s hs => (hx j hij s hs).bind fun k a s' _ hjk hs' ha =>
    hf k a (hij.trans hjk) ha k le_rfl s' hs'

section Eval

variable {H : Host} {D : Contract ι EvalError (World H)} {y : Eval H α}

theorem Keeps.located (hD : ∀ e span, D.error e → D.error (e.orSpan span)) (span : Span)
    (h : D.Keeps i y Q) : D.Keeps i (y.located span) Q := by
  intro j hij w hw
  have hy := h j hij w hw
  rw [Eval.located]
  cases hr : y w with
  | ok a w' => rw [hr] at hy; exact hy
  | error e w' => rw [hr] at hy; exact ⟨hD e span hy.1, hy.2⟩

theorem Keeps.ofExcept {z : Except Fault α} (hok : ∀ a, z = .ok a → ∀ j, i ≤ j → Q j a)
    (herror : ∀ f, z = .error f → D.error (.of f)) : D.Keeps i (liftM z : Eval H α) Q := by
  cases z with
  | ok a => exact Keeps.pure (hok a rfl)
  | error f => exact Keeps.throw (herror f rfl)

end Eval

end Contract

end Formula
