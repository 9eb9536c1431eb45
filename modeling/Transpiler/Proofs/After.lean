import Mathlib.Tactic.Common

/-!
# What holds after an action

An action on a state ends with a result or with a fault, and in both cases with a state. `After` says what
then holds, and it is put together along the program: there is one lemma for each way in which actions are
made of others.
-/

namespace Transpiler

variable {ε σ α β : Type}

section Bind

variable {x : EStateM ε σ α} {f : α → EStateM ε σ β} {s s' : σ}

lemma bind_of_eq_ok {a : α} (h : x s = .ok a s') : (x >>= f) s = f a s' := by
  change EStateM.bind x f s = _
  simp only [EStateM.bind, h]

lemma bind_of_eq_error {e : ε} (h : x s = .error e s') : (x >>= f) s = .error e s' := by
  change EStateM.bind x f s = _
  simp only [EStateM.bind, h]

end Bind

/-- How the action ends on `s`: with a result and a state as `ok` says, or with a fault and a state as `failed`
says. -/
def After (act : EStateM ε σ α) (s : σ) (ok : α → σ → Prop) (failed : ε → σ → Prop) : Prop :=
  match act s with
  | .ok a s' => ok a s'
  | .error e s' => failed e s'

namespace After

variable {s : σ} {ok ok₁ : α → σ → Prop} {ok' : β → σ → Prop} {failed failed₁ : ε → σ → Prop}

lemma pure {a : α} (h : ok a s) : After (pure a) s ok failed := h

lemma get_bind {f : σ → EStateM ε σ α} (h : After (f s) s ok failed) : After (get >>= f) s ok failed := h

lemma set_bind {s' : σ} {f : PUnit → EStateM ε σ α} (h : After (f ⟨⟩) s' ok failed) :
    After (set s' >>= f) s ok failed := h

lemma modify_bind {change : σ → σ} {f : PUnit → EStateM ε σ α} (h : After (f ⟨⟩) (change s) ok failed) :
    After (modify change >>= f) s ok failed := h

lemma of_ok {act : EStateM ε σ α} {a : α} {s' : σ} (h : After act s ok failed) (hrun : act s = .ok a s') : ok a s' := by
  rwa [After, hrun] at h

lemma mono {act : EStateM ε σ α} (h : After act s ok₁ failed₁) (hok : ∀ a s', ok₁ a s' → ok a s')
    (hfailed : ∀ e s', failed₁ e s' → failed e s') : After act s ok failed := by
  rw [After] at h ⊢
  cases hrun : act s with
  | ok a s' =>
    rw [hrun] at h
    exact hok a s' h
  | error e s' =>
    rw [hrun] at h
    exact hfailed e s' h

lemma bind {act : EStateM ε σ α} {f : α → EStateM ε σ β} (h : After act s ok₁ failed)
    (hf : ∀ a s', ok₁ a s' → After (f a) s' ok' failed) : After (act >>= f) s ok' failed := by
  rw [After] at h ⊢
  cases hact : act s with
  | ok a s' =>
    rw [hact] at h
    rw [bind_of_eq_ok hact]
    exact hf a s' h
  | error e s' =>
    rw [hact] at h
    rwa [bind_of_eq_error hact]

lemma dite {c : Prop} [Decidable c] {act act' : EStateM ε σ α} (h : c → After act s ok failed)
    (h' : ¬c → After act' s ok failed) : After (if c then act else act') s ok failed := by
  by_cases hc : c
  · rw [if_pos hc]
    exact h hc
  · rw [if_neg hc]
    exact h' hc

lemma ite {c : Prop} [Decidable c] {act act' : EStateM ε σ α} (h : After act s ok failed)
    (h' : After act' s ok failed) : After (if c then act else act') s ok failed :=
  dite (fun _ => h) fun _ => h'

end After

end Transpiler
