import RootCx.Lib.Json

/-! # Reading and changing JSON values

Objects are maps that are visited in the order of their keys. -/

namespace RootCx.Json

/-- `Value::get`, by the name of a field. -/
def get (key : Text) : Json → Option Json
  | .obj entries => (entries.find? fun entry => decide (entry.1 = key)).map Prod.snd
  | _ => none

theorem get_cons_self (key : Text) (value : Json) (entries : List (Text × Json)) :
    get key (.obj ((key, value) :: entries)) = some value := by simp [get]

theorem get_cons_other {key key' : Text} (other : key' ≠ key) (value : Json) (entries : List (Text × Json)) :
    get key (.obj ((key', value) :: entries)) = get key (.obj entries) := by simp [get, other]

def asStr : Json → Option Text
  | .str value => some value
  | _ => none

def asArray : Json → Option (List Json)
  | .arr items => some items
  | _ => none

def asObject : Json → Option (List (Text × Json))
  | .obj entries => some entries
  | _ => none

/-- `Value::as_u64`: a number that is written as digits only. -/
def asU64 : Json → Option Nat
  | .number text =>
    if text ≠ [] ∧ text.all Char.isDigit ∧ Text.digitsValue text < 2 ^ 64 then some (Text.digitsValue text) else none
  | _ => none

/-- `Value::as_i64`: a number that is written without a fraction or an exponent. -/
def asI64 : Json → Option Int
  | .number text => Text.parseI64 text
  | _ => none

/-- `Map::insert`: a key that is there gets the new value. -/
def insert (key : Text) (value : Json) : List (Text × Json) → List (Text × Json)
  | [] => [(key, value)]
  | entry :: rest =>
    if entry.1 = key then (key, value) :: rest
    else if key < entry.1 then (key, value) :: entry :: rest
    else entry :: insert key value rest

/-- The comparison of two numbers, as they are printed: the zeros of a float are equal. -/
def sameNumber (first second : Text) : Bool :=
  let zero (text : Text) : Bool := text = "0.0" || text = "-0.0"
  first = second || zero first && zero second

mutual

/-- The comparison `==` of values. -/
def same : Json → Json → Bool
  | .null, .null => true
  | .bool first, .bool second => first == second
  | .number first, .number second => sameNumber first second
  | .str first, .str second => decide (first = second)
  | .arr first, .arr second => sameItems first second
  | .obj first, .obj second => sameEntries first second
  | _, _ => false

def sameItems : List Json → List Json → Bool
  | [], [] => true
  | first :: rest, second :: rest' => same first second && sameItems rest rest'
  | _, _ => false

def sameEntries : List (Text × Json) → List (Text × Json) → Bool
  | [], [] => true
  | (key, first) :: rest, (key', second) :: rest' => decide (key = key') && same first second && sameEntries rest rest'
  | _, _ => false

end

/-- Shallow-merge the fields of `patch` onto `base`; `patch` wins. -/
def overlay : Json → Json → Json
  | .obj base, .obj patch => .obj (patch.foldl (fun entries entry => insert entry.1 entry.2 entries) base)
  | base, _ => base

/-- Fill the gaps of `params` with the fields of `input`. -/
def mergeArgs : Json → Json → Json
  | .obj params, .obj input =>
    .obj (input.foldl
      (fun entries entry => if entries.any (fun held => decide (held.1 = entry.1)) then entries else insert entry.1 entry.2 entries)
      params)
  | params, _ => params

/-- A number is printed with a digit other than zero in front of its exponent, unless it is zero. -/
def isTruthy : Json → Bool
  | .null => false
  | .bool value => value
  | .number text => (text.takeWhile fun c => c ≠ 'e' && c ≠ 'E').any fun c => c.isDigit && c ≠ '0'
  | .str value => value ≠ [] && value ≠ "false" && value ≠ "0"
  | .arr items => !items.isEmpty
  | .obj entries => !entries.isEmpty

end RootCx.Json
