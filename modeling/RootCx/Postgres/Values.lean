import RootCx.Lib.NumberText

/-! # Values bound to statements

What the PostgreSQL driver sends for a parameter, and the readers of texts that
come with the crates. -/

namespace RootCx.Postgres

inductive SqlType where
  | bool
  | float8
  | numeric
  | uuid
  | timestamptz
  | date
  | json
  | textArray
  | float8Array
  | text
  deriving DecidableEq, Repr

inductive SqlValue where
  | null (sqlType : SqlType)
  | bool (value : Bool)
  | int2 (value : Int16)
  | int4 (value : Int32)
  | int8 (value : Int64)
  | float4 (value : Extended)
  | float8 (value : ℚ)
  | numeric (value : ℚ)
  | uuid (value : Nat)
  -- in microseconds
  | timestamptz (value : Int)
  | timestamp (value : Int)
  -- in days
  | date (value : Int)
  | json (value : Json)
  | text (value : Text)
  | textArray (items : List Text)
  | uuidArray (items : List Nat)
  | float8Array (items : List ℚ)

/-- The texts that the crates read; a failure has the message of its error. -/
structure Readers where
  decimal : Text → Option ℚ
  uuid : Text → Except Text Nat
  -- `DateTime<Utc>` and `NaiveDateTime`, in nanoseconds
  instant : Text → Except Text Int
  localInstant : Text → Except Text Int
  date : Text → Except Text Int
  -- 32 digits at least
  uuid_nil : ∀ id, uuid [] ≠ .ok id

/-- Readers that know no text. -/
def noReaders : Readers where
  decimal := fun _ => none
  uuid := fun _ => .error "invalid length"
  instant := fun _ => .error "input contains invalid characters"
  localInstant := fun _ => .error "input contains invalid characters"
  date := fun _ => .error "input contains invalid characters"
  uuid_nil := fun _ ran => nomatch ran

/-- An instant as the driver sends it. -/
def microseconds (nanoseconds : Int) : Int := nanoseconds.tdiv 1000

theorem microseconds_exact {nanoseconds : Int} : microseconds nanoseconds * 1000 = nanoseconds ↔ 1000 ∣ nanoseconds := by
  rw [microseconds]
  constructor
  · intro same
    exact ⟨_, (Int.mul_comm _ _).trans same |>.symm⟩
  · intro divides
    exact Int.tdiv_mul_cancel divides

def okOr {α : Type} (failure : Text) (value : Option α) : Except Text α := value.elim (.error failure) .ok

@[simp] theorem okOr_eq_ok {α : Type} {failure : Text} {value : Option α} {result : α} :
    okOr failure value = .ok result ↔ value = some result := by
  cases value <;> simp [okOr]

end RootCx.Postgres
