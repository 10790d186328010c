import RootCx.Lib.JsonValue

/-! # The operators of PostgreSQL on `jsonb`

`->` is `Json.get`: on anything but an object a text key finds nothing. -/

namespace RootCx.Json

/-- `->>`: a string as it is, a value of another type as `render` prints it. -/
def fieldText (render : Json → Text) (key : Text) (value : Json) : Option Text :=
  match value.get key with
  | none | some .null => none
  | some (.str text) => some text
  | some other => some (render other)

/-- The operands of `||` when they are not both objects. -/
def items : Json → List Json
  | .arr items => items
  | value => [value]

/-- `||`: two objects are merged, everything else is put into one array. -/
def concat : Json → Json → Json
  | .obj base, .obj patch => overlay (.obj base) (.obj patch)
  | first, second => .arr (first.items ++ second.items)

def isObject : Json → Bool
  | .obj _ => true
  | _ => false

theorem get_insert (key : Text) (value : Json) (entries : List (Text × Json)) :
    get key (.obj (insert key value entries)) = some value := by
  induction entries with
  | nil => simp [insert, get]
  | cons entry rest ih =>
    simp only [get] at ih
    by_cases same : entry.1 = key
    · simp [insert, get, same]
    · by_cases before : key < entry.1
      · simp [insert, get, same, before]
      · simp [insert, get, same, before, ih]

theorem get_insert_other {key key' : Text} (other : key' ≠ key) {value : Json} {entries : List (Text × Json)} :
    get key' (.obj (insert key value entries)) = get key' (.obj entries) := by
  have apart : key ≠ key' := other.symm
  induction entries with
  | nil => simp [insert, get, apart]
  | cons entry rest ih =>
    simp only [get] at ih
    by_cases same : entry.1 = key
    · simp [insert, get, same, apart]
    · by_cases before : key < entry.1
      · simp [insert, get, same, before, apart]
      · rw [insert, if_neg same, if_neg before]
        by_cases found : entry.1 = key'
        · simp [get, found]
        · simp [get, found, ih]

/-- A field that is added by `||` is found in an object, and nothing is found in an array. -/
theorem get_concat_singleton (value : Json) (key : Text) (added : Json) :
    get key (value.concat (.obj [(key, added)])) = if value.isObject then some added else none := by
  cases value with
  | obj entries =>
    simp only [concat, overlay, List.foldl_cons, List.foldl_nil, isObject, ↓reduceIte]
    exact get_insert key added entries
  | null | bool | number | str | arr => simp [concat, get, isObject]

end RootCx.Json
