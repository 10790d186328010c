import Mathlib

/-! # Peeling fallible computations apart

A successful `do` block in `Except` is a chain of successful steps.  These
equivalences let a proof take one apart with `obtain`, without unfolding the
monad.
-/

namespace RootCx

open List Except

universe u v w

variable {ε : Type u} {ε' : Type w} {α β : Type v}

variable {x : Except ε α} {f : α → Except ε β} {value result : α} {items : List α}

@[simp] theorem bind_eq_ok {result : β} :
    (x >>= f) = .ok result ↔ ∃ value, x = .ok value ∧ f value = .ok result := by
  cases x <;> simp [bind, Except.bind]

@[simp] theorem pure_eq_ok : (pure value : Except ε α) = .ok result ↔ value = result := by
  simp [pure, Except.pure]

@[simp] theorem throw_eq_ok {failure : ε} : (throw failure : Except ε α) = .ok result ↔ False := by
  simp [throw, throwThe, MonadExceptOf.throw]

@[simp] theorem mapError_eq_ok {f : ε → ε'} : x.mapError f = .ok result ↔ x = .ok result := by
  cases x <;> simp [Except.mapError]

theorem map_eq_ok {f : α → β} {result : β} :
    x.map f = .ok result ↔ ∃ value, x = .ok value ∧ f value = result := by
  cases x <;> simp [Except.map]

theorem toOption_bind : (x >>= f).toOption = x.toOption.bind fun value => (f value).toOption := by
  cases x <;> rfl

theorem toOption_eq_some : x.toOption = some value ↔ x = .ok value := by
  cases x <;> simp [Except.toOption]

/-- Every result of a list of steps is the result of one of them. -/
theorem mem_of_mapM_ok {results : List β} (ran : items.mapM f = .ok results) {result : β}
    (mem : result ∈ results) : ∃ item ∈ items, f item = .ok result := by
  induction items generalizing results with
  | nil =>
    obtain rfl := pure_eq_ok.mp ran
    exact absurd mem not_mem_nil
  | cons item items ih =>
    rw [mapM_cons] at ran
    obtain ⟨first, one, ran⟩ := bind_eq_ok.mp ran
    obtain ⟨others, many, done⟩ := bind_eq_ok.mp ran
    obtain rfl := pure_eq_ok.mp done
    obtain rfl | older := mem_cons.mp mem
    · exact ⟨item, mem_cons_self, one⟩
    · obtain ⟨found, inside, same⟩ := ih many older
      exact ⟨found, mem_cons_of_mem item inside, same⟩

/-- A list of steps fails by the failure of one of them. -/
theorem exists_error_of_mapM {failure : ε} (failed : items.mapM f = .error failure) :
    ∃ item ∈ items, f item = .error failure := by
  induction items with
  | nil => cases failed
  | cons item items ih =>
    rw [mapM_cons] at failed
    cases first : f item with
    | error other =>
      rw [first] at failed
      obtain rfl := error.inj failed
      exact ⟨item, mem_cons_self, first⟩
    | ok result =>
      rw [first] at failed
      cases rest : items.mapM f with
      | error other =>
        obtain rfl : other = failure := by
          change (items.mapM f >>= _) = _ at failed
          rw [rest] at failed
          exact error.inj failed
        obtain ⟨found, mem, same⟩ := ih rest
        exact ⟨found, mem_cons_of_mem item mem, same⟩
      | ok results =>
        change (items.mapM f >>= _) = _ at failed
        rw [rest] at failed
        cases failed

theorem mapM_ok_of_forall (each : ∀ item ∈ items, ∃ result, f item = .ok result) :
    ∃ results, items.mapM f = .ok results ∧ ∀ result, result ∈ results ↔ ∃ item ∈ items, f item = .ok result := by
  induction items with
  | nil => exact ⟨[], rfl, by simp⟩
  | cons item items ih =>
    obtain ⟨⟨first, one⟩, others⟩ := forall_mem_cons.mp each
    obtain ⟨results, many, mem_iff⟩ := ih others
    refine ⟨first :: results, by rw [mapM_cons, one, many]; rfl, fun result => ?_⟩
    simp only [mem_cons, mem_iff result, exists_eq_or_imp, one, ok.injEq, @eq_comm _ first]

/-! ## With a state -/

variable {σ : Type v}

variable {s s' : σ}

theorem stateT_bind_ok {x : StateT σ (Except ε) α} {f : α → StateT σ (Except ε) β} {result : β × σ} :
    (x >>= f) s = .ok result ↔ ∃ value s', x s = .ok (value, s') ∧ f value s' = .ok result := by
  show (x s >>= fun (value, s') => f value s') = .ok result ↔ _
  simp only [bind_eq_ok, Prod.exists]

/-- A step that is known to succeed is run. -/
theorem stateT_bind_of_ok {x : StateT σ (Except ε) α} {f : α → StateT σ (Except ε) β}
    (step : x s = .ok (value, s')) : (x >>= f) s = f value s' := by
  show (x s >>= fun (value, s') => f value s') = _
  rw [step]
  rfl

theorem stateT_pure_ok :
    (pure value : StateT σ (Except ε) α) s = .ok (result, s') ↔ value = result ∧ s = s' := by
  show (ok (value, s) : Except ε (α × σ)) = .ok (result, s') ↔ _
  simp

/-! ## With a state that outlives a failure -/

variable {φ : Type v}

theorem exceptT_bind_error {x : ExceptT φ (StateM σ) α} {f : α → ExceptT φ (StateM σ) β} {failure : φ}
    (ran : x s = (.error failure, s')) : (x >>= f) s = (.error failure, s') := by
  change ExceptT.bindCont f (x s).1 (x s).2 = _
  rw [ran]
  rfl

theorem exceptT_bind_of_ok {x : ExceptT φ (StateM σ) α} {f : α → ExceptT φ (StateM σ) β}
    (ran : x s = (.ok value, s')) : (x >>= f) s = f value s' := by
  change ExceptT.bindCont f (x s).1 (x s).2 = _
  rw [ran]
  rfl

theorem exceptT_bind_ok {x : ExceptT φ (StateM σ) α} {f : α → ExceptT φ (StateM σ) β} {result : β} :
    (x >>= f) s = (.ok result, s') ↔ ∃ value mid, x s = (.ok value, mid) ∧ f value mid = (.ok result, s') := by
  constructor
  · intro ran
    cases first : x s with
    | mk reply mid =>
      cases reply with
      | error failure => exact nomatch (exceptT_bind_error first).symm.trans ran
      | ok value => exact ⟨value, mid, rfl, (exceptT_bind_of_ok first).symm.trans ran⟩
  · intro ⟨value, mid, first, ran⟩
    exact (exceptT_bind_of_ok first).trans ran

theorem exceptT_pure_ok :
    (pure value : ExceptT φ (StateM σ) α) s = (.ok result, s') ↔ value = result ∧ s = s' := by
  change ((.ok value, s) : Except φ α × σ) = (.ok result, s') ↔ _
  rw [Prod.mk.injEq, ok.injEq]

end RootCx
