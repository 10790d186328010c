import Mathlib

/-! # Steps with a state that may fail

`Holds allowed x s post`: run from `s`, the step `x` ends in `post`, or with a
failure that is allowed.
-/

namespace RootCx

universe u v

variable {ε : Type u} {σ α β : Type v} {allowed : ε → Prop}

def Holds (allowed : ε → Prop) (x : StateT σ (Except ε) α) (s : σ) (post : α → σ → Prop) : Prop :=
  match x s with
  | .ok (value, s') => post value s'
  | .error failure => allowed failure

theorem Holds.of_ok {x : StateT σ (Except ε) α} {s s' : σ} {post : α → σ → Prop} {value : α}
    (ran : x s = .ok (value, s')) (done : post value s') : Holds allowed x s post := by
  unfold Holds
  rw [ran]
  exact done

theorem Holds.of_error {x : StateT σ (Except ε) α} {s : σ} {post : α → σ → Prop} {failure : ε}
    (ran : x s = .error failure) (fair : allowed failure) : Holds allowed x s post := by
  unfold Holds
  rw [ran]
  exact fair

variable {post : α → σ → Prop}

theorem Holds.pure {s : σ} {value : α} (done : post value s) :
    Holds allowed (pure value : StateT σ (Except ε) α) s post := .of_ok rfl done

theorem Holds.mono {x : StateT σ (Except ε) α} {s : σ} {post' : α → σ → Prop} (holds : Holds allowed x s post)
    (weaker : ∀ value s', post value s' → post' value s') : Holds allowed x s post' := by
  unfold Holds at holds ⊢
  cases ran : x s with
  | error failure =>
    rw [ran] at holds
    exact holds
  | ok result =>
    rw [ran] at holds
    exact weaker result.1 result.2 holds

theorem Holds.bind {x : StateT σ (Except ε) α} {f : α → StateT σ (Except ε) β} {s : σ} {post : β → σ → Prop}
    (holds : Holds allowed x s fun value s' => Holds allowed (f value) s' post) : Holds allowed (x >>= f) s post := by
  unfold Holds at holds ⊢
  show match (x s >>= fun (value, s') => f value s') with | .ok (value, s') => post value s' | .error failure => allowed failure
  cases ran : x s with
  | error failure =>
    rw [ran] at holds
    exact holds
  | ok result =>
    rw [ran] at holds
    exact holds

theorem Holds.failure {x : StateT σ (Except ε) α} {s : σ} {failure : ε} (holds : Holds allowed x s post)
    (failed : x s = .error failure) : allowed failure := by
  unfold Holds at holds
  rwa [failed] at holds

end RootCx
