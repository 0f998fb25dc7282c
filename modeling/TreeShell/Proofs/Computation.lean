import Mathlib.Order.Defs.Unbundled
import TreeShell.Interpreter.Action

/-!
# Computations step by step

A computation with a state and failures is taken apart at its binds: by
`bind_of_ok` and `bind_of_error` when the outcome of the first part is known,
and by `bind_eq_ok` when the outcome of the whole is.

`Moves R m` says that `m` relates the state it starts in to the state it ends
in, whatever its outcome. For a preorder it is enough to look at the parts, so
a frame condition of a command is put together from those of its operations.
-/

namespace TreeShell

variable {ε σ α β : Type}

section Bind

variable {m : EStateM ε σ α} {f : α → EStateM ε σ β} {s s' : σ}

theorem bind_of_ok {a : α} (h : m s = .ok a s') : (m >>= f) s = f a s' := by
  change EStateM.bind m f s = _
  rw [EStateM.bind, h]

theorem bind_of_error {e : ε} (h : m s = .error e s') : (m >>= f) s = .error e s' := by
  change EStateM.bind m f s = _
  rw [EStateM.bind, h]

theorem bind_eq_ok {b : β} {s'' : σ} :
    (m >>= f) s = .ok b s'' ↔ ∃ a s', m s = .ok a s' ∧ f a s' = .ok b s'' := by
  constructor
  · intro h
    cases hm : m s with
    | ok a s' =>
      rw [bind_of_ok hm] at h
      exact ⟨a, s', rfl, h⟩
    | error e s' =>
      rw [bind_of_error hm] at h
      cases h
  · rintro ⟨a, s', hm, hf⟩
    rw [bind_of_ok hm, hf]

theorem get_bind (f : σ → EStateM ε σ β) (s : σ) : (get >>= f) s = f s s :=
  rfl

end Bind

instance decidableEqResult [DecidableEq ε] [DecidableEq σ] [DecidableEq α] :
    DecidableEq (EStateM.Result ε σ α)
  | .ok a s, .ok b s' => decidable_of_iff (a = b ∧ s = s') (by simp)
  | .error e s, .error f s' => decidable_of_iff (e = f ∧ s = s') (by simp)
  | .ok _ _, .error _ _ => isFalse nofun
  | .error _ _, .ok _ _ => isFalse nofun

/-- The computation ends in a state that `R` relates to the one it starts in. -/
def Moves (R : σ → σ → Prop) (m : EStateM ε σ α) : Prop :=
  ∀ s, R s (outcomeState (m s))

section Moves

variable {R S : σ → σ → Prop} {m : EStateM ε σ α} {f : α → EStateM ε σ β}

theorem Moves.mono (h : Moves R m) (hRS : ∀ s s', R s s' → S s s') : Moves S m :=
  fun s => hRS _ _ (h s)

theorem moves_modify {g : σ → σ} (h : ∀ s, R s (g s)) :
    Moves R (modify g : EStateM ε σ PUnit) :=
  h

/-- What follows a reading of the state may rely on what was read. -/
theorem moves_get_bind {f : σ → EStateM ε σ β} (hf : ∀ s, R s (outcomeState (f s s))) :
    Moves R (get >>= f) :=
  hf

variable [IsPreorder σ R]

theorem moves_pure (a : α) : Moves R (pure a : EStateM ε σ α) :=
  fun s => refl_of R s

theorem moves_throw (e : ε) : Moves R (throw e : EStateM ε σ α) :=
  fun s => refl_of R s

theorem related_bind {s : σ} (hm : R s (outcomeState (m s)))
    (hf : ∀ a s', m s = .ok a s' → R s' (outcomeState (f a s'))) :
    R s (outcomeState ((m >>= f) s)) := by
  cases hs : m s with
  | ok a s' =>
    rw [hs] at hm
    rw [bind_of_ok hs]
    exact trans_of R hm (hf a s' hs)
  | error e s' =>
    rw [hs] at hm
    rw [bind_of_error hs]
    exact hm

theorem moves_bind (hm : Moves R m) (hf : ∀ a, Moves R (f a)) : Moves R (m >>= f) :=
  fun s => related_bind (hm s) fun a s' _ => hf a s'

end Moves

end TreeShell
