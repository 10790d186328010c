import RootCx.Crud.WhereClause
import RootCx.Lib.NumberLiterals
import RootCx.Postgres.Values

/-! # Typed binding of field values

`bind_typed` of `data_types.rs`: what a JSON value becomes under the type of its
field, and what a column of that type keeps of it.  The binder gets what is kept of the JSON
value in the request, and the row is held against that value. -/

namespace RootCx.Crud

open RootCx.Text RootCx.Postgres List

/-! ## Coercions -/

/-- The finite number of double precision read from a value. -/
def finiteNumber : Json → Option ℚ
  | .number text => Json.finiteF64 text
  | .str text => Json.finiteF64 (trim text)
  | .bool value => some (if value then 1 else 0)
  | _ => none

def coerceF64 (value : Json) : Except Text ℚ :=
  okOr ("invalid number value: " ++ value.compact) (finiteNumber value)

def coerceBool (value : Json) : Bool :=
  match value with
  | .bool value => value
  | .number _ => value.asI64.any (· ≠ 0)
  | .str text => text = "true" || text = "1"
  | _ => false

def coerceParsed {α : Type} (read : Text → Except Text α) (value : Json) (label : Text) : Except Text α :=
  okOr ("invalid " ++ label ++ ": " ++ value.compact) (value.asStr.bind fun text => (read text).toOption)

def coerceStrVec : Json → List Text
  | .arr values => values.filterMap Json.asStr
  | _ => []

def coerceF64Vec (value : Json) : Except Text (List ℚ) :=
  match value with
  | .arr values => values.mapM coerceF64
  | _ => .error ("invalid number array value: " ++ value.compact)

variable {items : List Json} {number : ℚ}

section Bind

variable (readers : Readers)

def parseDecimal (literal label : Text) : Except Text ℚ :=
  okOr ("invalid decimal " ++ label ++ ": '" ++ literal ++ "'") (readers.decimal literal)

/-- The type that a null is bound with. -/
def nullType : Option FieldType → SqlType
  | some .number => .float8
  | some (.decimal _) => .numeric
  | some .boolean => .bool
  | some .uuid | some .entityLink => .uuid
  | some .date => .date
  | some .timestamp => .timestamptz
  | some .json => .json
  | some .textArray => .textArray
  | some .numberArray => .float8Array
  | _ => .text

/-- What is bound for a value that is not null. -/
def bindPresent (value : Json) : Option FieldType → Except Text SqlValue
  | some .number => (coerceF64 value).map .float8
  | some (.decimal _) => do
    let literal ← okOr "decimal value must be a JSON string" value.asStr
    (parseDecimal readers literal "value").map .numeric
  | some .boolean => .ok (.bool (coerceBool value))
  | some .uuid | some .entityLink => (coerceParsed readers.uuid value "uuid").map .uuid
  | some .date => (coerceParsed readers.date value "date (expected YYYY-MM-DD)").map .date
  | some .timestamp =>
    (coerceParsed readers.instant value
      "timestamp (expected RFC 3339 with a timezone, e.g. 2026-01-31T09:30:00Z)").map
        fun instant => .timestamptz (microseconds instant)
  | some .json => .ok (.json value)
  | some .textArray => .ok (.textArray (coerceStrVec value))
  | some .numberArray => (coerceF64Vec value).map .float8Array
  | some .text | some .file | none => .ok (.text (jsonValueToString value))

def bindTyped (value : Json) (fieldType : Option FieldType) : Except Text SqlValue :=
  if value.isNull then .ok (.null (nullType fieldType)) else bindPresent readers value fieldType

/-! ## Columns -/

/-- Ties go away from zero. -/
def roundHalfAway (x : ℚ) : ℤ := if 0 ≤ x then ⌊x + 1 / 2⌋ else -⌊-x + 1 / 2⌋

/-- A number in a column `NUMERIC(precision, scale)`, unless it overflows. -/
def fitNumeric (decimal : DecimalType) (value : ℚ) : Option ℚ :=
  match decimal.precision, decimal.scale with
  | some precision, some scale =>
    let rounded : ℚ := roundHalfAway (value * 10 ^ scale) / 10 ^ scale
    if |rounded| < 10 ^ (precision - scale) then some rounded else none
  | _, _ => some value

/-- What the column of a field keeps of a bound value. -/
def storeIn (fieldType : Option FieldType) (bound : SqlValue) : Option SqlValue :=
  match fieldType, bound with
  | some (.decimal decimal), .numeric value => (fitNumeric decimal value).map .numeric
  | _, bound => some bound

/-! ## What a value says -/

/-- The number that a value says. -/
def numberOf : Json → Option ℚ
  | .number text => Json.literalValue text
  | .str text => Json.literalValue (trim text)
  | .bool value => some (if value then 1 else 0)
  | _ => none

/-- The truth value that a value says. -/
def booleanOf (value : Json) : Option Bool :=
  match value with
  | .bool value => some value
  | .number _ => value.asI64.map (· ≠ 0)
  | .str text =>
    if text = "true" ∨ text = "1" then some true
    else if text = "false" ∨ text = "0" then some false
    else none
  | _ => none

/-- The row says what the JSON value says, in the canonical form of the type. -/
inductive Stores : Json → SqlValue → Prop where
  | null {sqlType : SqlType} : Stores .null (.null sqlType)
  | number {value : Json} {number : ℚ} (said : numberOf value = some number) : Stores value (.float8 number)
  | decimal {text : Text} {number : ℚ} (read : readers.decimal text = some number) : Stores (.str text) (.numeric number)
  | boolean {value : Json} {truth : Bool} (said : booleanOf value = some truth) : Stores value (.bool truth)
  | uuid {text : Text} {id : Nat} (read : readers.uuid text = .ok id) : Stores (.str text) (.uuid id)
  | date {text : Text} {day : Int} (read : readers.date text = .ok day) : Stores (.str text) (.date day)
  | timestamp {text : Text} {instant : Int} (read : readers.instant text = .ok (instant * 1000)) :
      Stores (.str text) (.timestamptz instant)
  | json {value held : Json} (alike : value.Alike held) : Stores value (.json held)
  | texts {texts : List Text} : Stores (.arr (texts.map .str)) (.textArray texts)
  | numbers {items : List Json} {numbers : List ℚ} (said : items.map numberOf = numbers.map some) :
      Stores (.arr items) (.float8Array numbers)
  | text {value held : Json} (numeric : held.Numeric) (alike : value.Alike held) :
      Stores value (.text (jsonValueToString held))

variable (reader : NumberReader)

/-- The row says what the value says, where the value that is kept of it is bound and stored. -/
def Right (value held : Json) (fieldType : Option FieldType) : Prop :=
  ∀ bound stored, bindTyped readers held fieldType = .ok bound → storeIn fieldType bound = some stored →
    Stores readers value stored

/-- The request fails, or the row says what the value says. -/
def Faithful (value : Json) (fieldType : Option FieldType) : Prop :=
  ∀ held, value.received reader = some held → Right readers value held fieldType

/-- A number that is kept as it is, or a refused or represented one in a string. -/
def Doubles : Json → Prop
  | .number text => (∀ int, text = ofInt int → -2 ^ 63 ≤ int → int < 2 ^ 64 → binary64.Represents int) ∧ Json.Kept reader text
  | .str text => ∀ number, Json.literalValue (trim text) = some number →
      Json.finiteF64 (trim text) = none ∨ binary64.Represents number
  | _ => True

/-- A value that a number is read from. -/
def Readable : Json → Prop
  | .number _ | .bool _ => True
  | .str text => Json.finiteF64 (trim text) ≠ none
  | _ => False

/-- The values that a field keeps. -/
def Keeps (value : Json) : Option FieldType → Prop
  | some .number => Doubles reader value
  | some (.decimal decimal) => ∀ text number, value = .str text → readers.decimal text = some number →
      fitNumeric decimal number = none ∨ ∀ scale, decimal.precision.isSome → decimal.scale = some scale →
        ∃ units : ℤ, number * 10 ^ scale = units
  | some .boolean => value.isNull ∨ (booleanOf value).isSome
  | some .timestamp => ∀ text instant, value = .str text → readers.instant text = .ok instant → 1000 ∣ instant
  | some .textArray => value.isNull ∨ ∃ texts : List Text, value = .arr (texts.map .str)
  | some .numberArray => ∀ items, value = .arr items →
      (∃ item ∈ items, ¬Readable item) ∨ ∀ item ∈ items, Doubles reader item
  | some .json | some .text | some .file | none => ∀ text ∈ value.numbers, Json.Kept reader text
  | _ => True

/-! ## Numbers -/

section Numbers

variable {reader : NumberReader} {value held : Json} {number : ℚ}

/-- What is read of the kept value is what the value says, where that is a double. -/
theorem numberOf_eq_iff (read : value.received reader = some held) (finite : finiteNumber held = some number) :
    numberOf value = some number ↔ Doubles reader value := by
  cases value with
  | number text =>
    obtain ⟨printed, known, rfl⟩ := Json.received_number.mp read
    show Json.literalValue text = some number ↔ _
    obtain ⟨int, low, high, rfl, rfl⟩ | ⟨unsigned, double, double_eq, stands⟩ := Json.kept_cases known
    · obtain ⟨double, again, rounded⟩ := Json.finiteF64_ofInt low high
      cases again.symm.trans finite
      rw [Json.literalValue_ofInt, Option.some.injEq]
      constructor
      · rintro rfl
        refine ⟨fun other same _ _ => ?_, fun printed again => ?_⟩
        · cases (signedValue_ofInt int).symm.trans ((congrArg signedValue same).trans (signedValue_ofInt other))
          exact BinaryFormat.represents_of_nearest (by decide) rounded
        · cases known.symm.trans again
          rfl
      · rintro ⟨represented, -⟩
        cases (BinaryFormat.nearest_of_represents (represented int rfl low high)).symm.trans rounded
        rfl
    · cases double_eq.symm.trans finite
      constructor
      · intro said
        refine ⟨fun int same low high => ?_, fun other again => ?_⟩
        · cases (reader.whole int low high).symm.trans (same ▸ known)
          cases (signedValue_ofInt int).symm.trans unsigned
        · cases known.symm.trans again
          exact said.trans stands.symm
      · rintro ⟨-, kept⟩
        exact (kept printed known).trans stands
  | str text =>
    cases read
    show Json.literalValue (trim text) = some number ↔ _
    constructor
    · intro said other same
      cases said.symm.trans same
      exact .inr (Json.represents_of_finiteF64 finite)
    · intro doubles
      obtain ⟨said, same⟩ := Json.exists_literalValue finite
      obtain unread | represented := doubles said same
      · cases unread.symm.trans finite
      · exact same.trans ((Json.finiteF64_eq_literalValue same represented).symm.trans finite)
  | bool truth =>
    cases read
    exact iff_of_true finite trivial
  | null => cases read; cases finite
  | arr items =>
    obtain ⟨f, same⟩ := Json.exists_mapNumbers read
    rw [same, Json.mapNumbers_arr] at finite
    cases finite
  | obj entries =>
    obtain ⟨f, same⟩ := Json.exists_mapNumbers read
    rw [same, Json.mapNumbers_obj] at finite
    cases finite

theorem finiteNumber_eq_none (read : value.received reader = some held) : finiteNumber held = none ↔ ¬Readable value := by
  cases value with
  | number text =>
    obtain ⟨printed, known, rfl⟩ := Json.received_number.mp read
    refine iff_of_false (fun unread => ?_) (not_not_intro trivial)
    obtain ⟨int, low, high, rfl, rfl⟩ | ⟨-, double, finite, -⟩ := Json.kept_cases known
    · obtain ⟨double, finite, -⟩ := Json.finiteF64_ofInt low high
      cases unread.symm.trans finite
    · cases unread.symm.trans finite
  | str text =>
    cases read
    exact not_not.symm
  | bool truth =>
    cases read
    exact iff_of_false (fun unread => nomatch unread) (not_not_intro trivial)
  | null =>
    cases read
    exact iff_of_true rfl id
  | arr items =>
    obtain ⟨f, same⟩ := Json.exists_mapNumbers read
    rw [same, Json.mapNumbers_arr]
    exact iff_of_true rfl id
  | obj entries =>
    obtain ⟨f, same⟩ := Json.exists_mapNumbers read
    rw [same, Json.mapNumbers_obj]
    exact iff_of_true rfl id

theorem coerceF64_eq_ok : coerceF64 value = .ok number ↔ finiteNumber value = some number := okOr_eq_ok

theorem coerceF64Vec_eq_ok {numbers : List ℚ} :
    coerceF64Vec (.arr items) = .ok numbers ↔ items.map finiteNumber = numbers.map some := by
  show items.mapM coerceF64 = .ok numbers ↔ _
  induction items generalizing numbers with
  | nil =>
    rw [mapM_nil, pure_eq_ok]
    cases numbers <;> simp
  | cons item items ih =>
    rw [mapM_cons, bind_eq_ok]
    constructor
    · rintro ⟨first, one, rest⟩
      obtain ⟨others, many, done⟩ := bind_eq_ok.mp rest
      obtain rfl := pure_eq_ok.mp done
      rw [map_cons, map_cons, coerceF64_eq_ok.mp one, ih.mp many]
    · intro same
      cases numbers with
      | nil => cases same
      | cons first others =>
        obtain ⟨one, many⟩ := cons.inj same
        exact ⟨first, coerceF64_eq_ok.mpr one, bind_eq_ok.mpr ⟨others, ih.mpr many, rfl⟩⟩

theorem exists_numbers (readable : ∀ item ∈ items, finiteNumber item ≠ none) :
    ∃ numbers : List ℚ, items.map finiteNumber = numbers.map some := by
  refine ⟨items.map fun item => (finiteNumber item).getD 0, ?_⟩
  rw [map_map]
  refine map_congr_left fun item mem => ?_
  obtain ⟨number, read⟩ := Option.ne_none_iff_exists'.mp (readable item mem)
  simp [read]

theorem numbers_eq_iff {f : Text → Text} {numbers : List ℚ}
    (read : ∀ item ∈ items, Json.received reader item = some (item.mapNumbers f))
    (finite : (items.map (Json.mapNumbers f)).map finiteNumber = numbers.map some) :
    items.map numberOf = numbers.map some ↔ ∀ item ∈ items, Doubles reader item := by
  have readable : ∀ item ∈ items, ∃ number, finiteNumber (item.mapNumbers f) = some number := by
    intro item mem
    have inside : finiteNumber (item.mapNumbers f) ∈ numbers.map some :=
      finite ▸ mem_map_of_mem (mem_map_of_mem mem)
    obtain ⟨number, -, same⟩ := mem_map.mp inside
    exact ⟨number, same.symm⟩
  rw [← finite, map_map, map_inj_left]
  refine forall₂_congr fun item mem => ?_
  obtain ⟨number, known⟩ := readable item mem
  rw [Function.comp_apply, known]
  exact numberOf_eq_iff (read item mem) known

end Numbers

/-! ## Decimals -/

theorem roundHalfAway_intCast (n : ℤ) : roundHalfAway n = n := by
  have half : ⌊(1 / 2 : ℚ)⌋ = 0 := by norm_num [Int.floor_eq_iff]
  unfold roundHalfAway
  split
  · rw [Int.floor_intCast_add, half, add_zero]
  · rw [← Int.cast_neg, Int.floor_intCast_add, half, add_zero, neg_neg]

theorem fitNumeric_exact {decimal : DecimalType} {kept : ℚ} (fits : fitNumeric decimal number = some kept) :
    kept = number ↔ ∀ scale, decimal.precision.isSome → decimal.scale = some scale → ∃ units : ℤ, number * 10 ^ scale = units := by
  obtain ⟨precision, scale⟩ := decimal
  unfold fitNumeric at fits
  split at fits
  next precision' scale' limited scaled =>
    subst limited scaled
    rw [Option.ite_none_right_eq_some, Option.some.injEq] at fits
    obtain ⟨-, rfl⟩ := fits
    have unit : (10 : ℚ) ^ scale' ≠ 0 := by positivity
    constructor
    · rintro same scale - ⟨⟩
      exact ⟨_, (div_eq_iff unit).mp same |>.symm⟩
    · intro whole
      obtain ⟨units, same⟩ := whole scale' rfl rfl
      rw [same, roundHalfAway_intCast, ← same, mul_div_cancel_right₀ number unit]
  next unlimited =>
    cases fits
    refine iff_of_true rfl ?_
    intro scale' limited scaled
    obtain ⟨precision', known⟩ := Option.isSome_iff_exists.mp limited
    exact (unlimited precision' scale' known scaled).elim

/-! ## Faithful for each type -/

section Types

variable {readers} {reader : NumberReader} {value held : Json}

theorem keeps_null (fieldType : Option FieldType) : Keeps readers reader .null fieldType := by
  have none : ∀ text ∈ Json.numbers .null, Json.Kept reader text := fun _ mem => absurd mem not_mem_nil
  cases fieldType with
  | none => exact none
  | some fieldType =>
    cases fieldType with
    | json | text | file => exact none
    | boolean | textArray => exact .inl rfl
    | decimal | timestamp => exact fun _ _ same => nomatch same
    | numberArray => exact fun _ same => nomatch same
    | _ => trivial

theorem coerceParsed_eq_ok {α : Type} {read : Text → Except Text α} {label : Text} {result : α} :
    coerceParsed read value label = .ok result ↔ ∃ text, value = .str text ∧ read text = .ok result := by
  unfold coerceParsed
  rw [okOr_eq_ok, Option.bind_eq_some_iff]
  constructor
  · rintro ⟨text, string, parsed⟩
    cases value with
    | str text' =>
      obtain rfl := Option.some.inj string
      exact ⟨text', rfl, toOption_eq_some.mp parsed⟩
    | _ => cases string
  · rintro ⟨text, rfl, parsed⟩
    exact ⟨text, rfl, toOption_eq_some.mpr parsed⟩

theorem stores_number (read : value.received reader = some held) (finite : finiteNumber held = some number) :
    Stores readers value (.float8 number) ↔ Doubles reader value := by
  rw [← numberOf_eq_iff read finite]
  constructor
  · intro stores
    cases stores with
    | number said => exact said
  · exact .number

theorem stores_decimal {text : Text} {kept : ℚ} (read : readers.decimal text = some number) :
    Stores readers (.str text) (.numeric kept) ↔ kept = number := by
  constructor
  · intro stores
    cases stores with
    | decimal other => exact Option.some.inj (other.symm.trans read)
  · rintro rfl
    exact .decimal read

theorem stores_timestamp {text : Text} {instant : Int} (read : readers.instant text = .ok instant) :
    Stores readers (.str text) (.timestamptz (microseconds instant)) ↔ 1000 ∣ instant := by
  rw [← microseconds_exact]
  constructor
  · intro stores
    cases stores with
    | timestamp same => exact (Except.ok.inj (read.symm.trans same)).symm
  · intro exact
    exact .timestamp (by rw [exact, read])

theorem coerceBool_eq (read : value.received reader = some held) : coerceBool held = (booleanOf value).getD false := by
  cases value with
  | number text =>
    obtain ⟨printed, known, rfl⟩ := Json.received_number.mp read
    show (parseI64 printed).any (fun int => decide (int ≠ 0)) = ((parseI64 text).map fun int => decide (int ≠ 0)).getD false
    cases whole : parseI64 text with
    | some int =>
      obtain ⟨signed, low, high⟩ := parseI64_eq_some.mp whole
      obtain rfl | ⟨rfl, -⟩ := reader.grammar text printed int known signed
      · cases (reader.whole int low (by omega)).symm.trans known
        rw [whole]
        simp
      · obtain ⟨int, -, -, rfl, rfl⟩ | ⟨unsigned, -⟩ := Json.kept_cases known
        · rw [whole]
          simp
        · cases again : parseI64 printed with
          | none => simp
          | some int => cases unsigned.symm.trans (parseI64_eq_some.mp again).1
    | none =>
      cases again : parseI64 printed with
      | none => rfl
      | some int =>
        obtain ⟨-, -, -, -, rfl⟩ | ⟨unsigned, -⟩ := Json.kept_cases known
        · cases whole.symm.trans again
        · cases unsigned.symm.trans (parseI64_eq_some.mp again).1
  | str text =>
    obtain rfl : Json.str text = held := Option.some.inj read
    simp only [coerceBool, booleanOf]
    split
    next yes => simpa using yes
    next no =>
      split <;> simpa [not_or] using no
  | null | bool _ => cases read; rfl
  | arr _ | obj _ =>
    obtain ⟨f, rfl⟩ := Json.exists_mapNumbers read
    rfl

theorem stores_boolean (read : value.received reader = some held) :
    Stores readers value (.bool (coerceBool held)) ↔ (booleanOf value).isSome := by
  rw [coerceBool_eq read]
  constructor
  · intro stores
    generalize shape : (booleanOf value).getD false = truth at stores
    cases stores with
    | boolean said => rw [said, Option.isSome_some]
  · intro said
    obtain ⟨truth, same⟩ := Option.isSome_iff_exists.mp said
    exact .boolean (by rw [same, Option.getD_some])

theorem stores_texts : Stores readers value (.textArray (coerceStrVec value)) ↔ ∃ texts : List Text, value = .arr (texts.map .str) := by
  constructor
  · intro stores
    generalize coerceStrVec value = texts at stores
    cases stores with
    | texts => exact ⟨texts, rfl⟩
  · rintro ⟨texts, rfl⟩
    have kept : coerceStrVec (.arr (texts.map .str)) = texts := by
      simp [coerceStrVec, filterMap_map, Function.comp_def, Json.asStr]
    rw [kept]
    exact .texts

theorem coerceStrVec_mapNumbers (f : Text → Text) (value : Json) : coerceStrVec (value.mapNumbers f) = coerceStrVec value := by
  cases value with
  | arr items =>
    rw [Json.mapNumbers_arr]
    show (items.map (Json.mapNumbers f)).filterMap Json.asStr = items.filterMap Json.asStr
    rw [filterMap_map]
    exact filterMap_congr fun item _ => item.asStr_mapNumbers f
  | null | bool _ | number _ | str _ | obj _ => rfl

theorem stores_json (read : value.received reader = some held) :
    Stores readers value (.json held) ↔ ∀ text ∈ value.numbers, Json.Kept reader text := by
  rw [← Json.alike_received read]
  constructor
  · intro stores
    cases stores with
    | json alike => exact alike
  · exact .json

theorem stores_text (present : value.isNull = false) (read : value.received reader = some held) :
    Stores readers value (.text (jsonValueToString held)) ↔ ∀ text ∈ value.numbers, Json.Kept reader text := by
  rw [← Json.alike_received read]
  refine ⟨fun stores => ?_, .text (Json.numeric_received read)⟩
  obtain ⟨f, same⟩ := Json.exists_mapNumbers read
  generalize shape : SqlValue.text (jsonValueToString held) = stored at stores
  cases stores with
  | @text _ other numeric alike =>
    have spelled := SqlValue.text.inj shape
    cases value with
    | null => cases present
    | str text =>
      subst same
      exact .str
    | _ =>
      -- any other value is bound by its compact text
      have bare : jsonValueToString held = held.compact := by rw [same]; rfl
      have bare' : jsonValueToString other = other.compact := by
        cases alike
        rfl
      rw [bare, bare'] at spelled
      exact Json.compact_injective (Json.numeric_received read) numeric spelled ▸ alike
  | _ => cases shape

end Types

/-! ## Every type -/

section Every

variable {readers} {reader : NumberReader} {value held : Json} {fieldType : Option FieldType}

theorem storeIn_null {sqlType : SqlType} : storeIn fieldType (.null sqlType) = some (.null sqlType) := by
  unfold storeIn
  split
  next same => cases same
  next => rfl

theorem bindTyped_present (present : value.isNull = false) :
    bindTyped readers value fieldType = bindPresent readers value fieldType := by
  rw [bindTyped, present]
  rfl

theorem right_iff_read {α : Type} {read : Except Text α} {cast : α → SqlValue} {P : Prop} (present : held.isNull = false)
    (binds : bindPresent readers held fieldType = read.map cast)
    (keeps : ∀ result, storeIn fieldType (cast result) = some (cast result))
    (stores : ∀ result, read = .ok result → (Stores readers value (cast result) ↔ P))
    (refused : (∀ result, read ≠ .ok result) → P) : Right readers value held fieldType ↔ P := by
  have whole := (bindTyped_present present).trans binds
  constructor
  · intro right
    cases known : read with
    | error message => exact refused fun result same => nomatch known.symm.trans same
    | ok result => exact (stores result known).mp (right _ _ (by rw [whole, known]; rfl) (keeps result))
  · intro holds bound stored ran kept
    obtain ⟨result, known, rfl⟩ := map_eq_ok.mp (whole.symm.trans ran)
    cases (keeps result).symm.trans kept
    exact (stores result known).mpr holds

theorem right_iff_stores {bound : SqlValue} (present : held.isNull = false)
    (binds : bindPresent readers held fieldType = .ok bound) (keeps : storeIn fieldType bound = some bound) :
    Right readers value held fieldType ↔ Stores readers value bound := by
  constructor
  · intro right
    exact right bound bound ((bindTyped_present present).trans binds) keeps
  · intro stores bound' stored ran kept
    cases ((bindTyped_present present).trans binds).symm.trans ran
    cases keeps.symm.trans kept
    exact stores

theorem parsed_right {α : Type} {read : Text → Except Text α} {label : Text} {cast : α → SqlValue}
    (kept : value.received reader = some held) (present : held.isNull = false)
    (binds : bindPresent readers held fieldType = (coerceParsed read held label).map cast)
    (keeps : ∀ result, storeIn fieldType (cast result) = some (cast result))
    (stores : ∀ text result, read text = .ok result → Stores readers (.str text) (cast result)) :
    Right readers value held fieldType := by
  refine (right_iff_read present binds keeps (fun result ran => ?_) fun _ => trivial).mpr trivial
  obtain ⟨text, rfl, parsed⟩ := coerceParsed_eq_ok.mp ran
  obtain rfl := Json.str_of_received kept
  exact iff_of_true (stores text result parsed) trivial

theorem number_right (read : value.received reader = some held) (present : held.isNull = false) :
    Right readers value held (some .number) ↔ Keeps readers reader value (some .number) := by
  refine right_iff_read present rfl (fun _ => rfl) (fun number ran => stores_number read (coerceF64_eq_ok.mp ran)) ?_
  intro refused
  have unread : finiteNumber held = none := by
    cases known : finiteNumber held with
    | none => rfl
    | some number => exact (refused number (coerceF64_eq_ok.mpr known)).elim
  have unreadable := (finiteNumber_eq_none read).mp unread
  show Doubles reader value
  cases value with
  | number _ | bool _ => exact absurd trivial unreadable
  | str text => exact fun number said => .inl (not_not.mp unreadable)
  | null | arr _ | obj _ => trivial

theorem timestamp_right (read : value.received reader = some held) (present : held.isNull = false) :
    Right readers value held (some .timestamp) ↔ Keeps readers reader value (some .timestamp) := by
  refine right_iff_read present rfl (fun _ => rfl) (fun instant ran => ?_) ?_
  · obtain ⟨text, rfl, parsed⟩ := coerceParsed_eq_ok.mp ran
    obtain rfl := Json.str_of_received read
    rw [stores_timestamp parsed]
    constructor
    · intro whole text' instant' string parsed'
      obtain rfl := Json.str.inj string
      cases parsed.symm.trans parsed'
      exact whole
    · intro keeps
      exact keeps text instant rfl parsed
  · rintro refused text instant rfl parsed
    obtain rfl : Json.str text = held := Option.some.inj read
    exact (refused instant (coerceParsed_eq_ok.mpr ⟨text, rfl, parsed⟩)).elim

theorem numberArray_right (read : value.received reader = some held) (present : held.isNull = false) :
    Right readers value held (some .numberArray) ↔ Keeps readers reader value (some .numberArray) := by
  refine right_iff_read present rfl (fun _ => rfl) ?_ ?_
  · intro numbers ran
    cases held with
    | arr items =>
      obtain ⟨written, f, rfl, rfl, each⟩ := Json.arr_of_received read
      have readAll := coerceF64Vec_eq_ok.mp ran
      have stores : Stores readers (.arr written) (.float8Array numbers) ↔ ∀ item ∈ written, Doubles reader item := by
        rw [← numbers_eq_iff each readAll]
        constructor
        · intro stores
          cases stores with
          | numbers said => exact said
        · exact .numbers
      rw [stores]
      constructor
      · intro doubles others same
        obtain rfl := Json.arr.inj same
        exact .inr doubles
      · intro keeps
        obtain ⟨item, mem, unreadable⟩ | doubles := keeps written rfl
        · have inside : finiteNumber (item.mapNumbers f) ∈ numbers.map some :=
            readAll ▸ mem_map_of_mem (mem_map_of_mem mem)
          rw [(finiteNumber_eq_none (each item mem)).mpr unreadable] at inside
          simp at inside
        · exact doubles
    | null | bool _ | number _ | str _ | obj _ => cases ran
  · rintro refused items rfl
    obtain ⟨g, same⟩ := Json.exists_mapNumbers read
    rw [Json.mapNumbers_arr] at same
    subst same
    obtain ⟨written, f, same, kept, each⟩ := Json.arr_of_received read
    obtain rfl := Json.arr.inj same
    rw [kept] at refused
    by_contra odd
    rw [not_or] at odd
    have readable : ∀ item ∈ items.map (Json.mapNumbers f), finiteNumber item ≠ none := by
      intro item mem unread
      obtain ⟨item, inside, rfl⟩ := mem_map.mp mem
      exact odd.1 ⟨item, inside, (finiteNumber_eq_none (each item inside)).mp unread⟩
    obtain ⟨numbers, readAll⟩ := exists_numbers readable
    exact refused numbers (coerceF64Vec_eq_ok.mpr readAll)

theorem decimal_right {decimal : DecimalType} (kept : value.received reader = some held) (present : held.isNull = false) :
    Right readers value held (some (.decimal decimal)) ↔ Keeps readers reader value (some (.decimal decimal)) := by
  have string : held.asStr = value.asStr := by
    obtain ⟨f, rfl⟩ := Json.exists_mapNumbers kept
    exact value.asStr_mapNumbers f
  have binds {bound : SqlValue} : bindTyped readers held (some (.decimal decimal)) = .ok bound ↔
      ∃ text number, value = .str text ∧ readers.decimal text = some number ∧ SqlValue.numeric number = bound := by
    rw [bindTyped_present present]
    simp only [bindPresent, bind_eq_ok, okOr_eq_ok, map_eq_ok, parseDecimal, string]
    cases value with
    | str text => simp [Json.asStr]
    | _ => simp [Json.asStr]
  constructor
  · intro right text number string read
    cases fits : fitNumeric decimal number with
    | none => exact .inl rfl
    | some kept =>
      have stored : storeIn (some (.decimal decimal)) (.numeric number) = some (.numeric kept) := by
        rw [storeIn, fits]
        rfl
      have stores := right _ _ (binds.mpr ⟨text, number, string, read, rfl⟩) stored
      subst string
      exact .inr ((fitNumeric_exact fits).mp ((stores_decimal read).mp stores))
  · intro keeps bound stored ran column
    obtain ⟨text, number, rfl, read, rfl⟩ := binds.mp ran
    obtain ⟨kept, fits, rfl⟩ := Option.map_eq_some_iff.mp column
    obtain excess | whole := keeps text number rfl read
    · rw [fits] at excess
      cases excess
    · exact (stores_decimal read).mpr ((fitNumeric_exact fits).mpr whole)

theorem right_iff_keeps (read : value.received reader = some held) (present : value.isNull = false) (fieldType : Option FieldType) :
    Right readers value held fieldType ↔ Keeps readers reader value fieldType := by
  obtain ⟨f, same⟩ := Json.exists_mapNumbers read
  have known : held.isNull = false := by rw [same, Json.isNull_mapNumbers, present]
  have text := @stores_text readers reader value held present read
  cases fieldType with
  | none => exact (right_iff_stores known rfl rfl).trans text
  | some fieldType =>
    cases fieldType with
    | text | file => exact (right_iff_stores known rfl rfl).trans text
    | number => exact number_right read known
    | decimal decimal => exact decimal_right read known
    | boolean =>
      rw [right_iff_stores known rfl rfl, stores_boolean read]
      exact (or_iff_right (Bool.eq_false_iff.mp present)).symm
    | date => exact iff_of_true (parsed_right read known rfl (fun _ => rfl) fun _ _ => .date) trivial
    | timestamp => exact timestamp_right read known
    | json => exact (right_iff_stores known rfl rfl).trans (stores_json read)
    | uuid | entityLink => exact iff_of_true (parsed_right read known rfl (fun _ => rfl) fun _ _ => .uuid) trivial
    | textArray =>
      rw [right_iff_stores known rfl rfl, same, coerceStrVec_mapNumbers, stores_texts]
      exact (or_iff_right (Bool.eq_false_iff.mp present)).symm
    | numberArray => exact numberArray_right read known

end Every

/-- The request fails or the row says what the value says, exactly when one of its numbers is
    out of range or the field keeps the value. -/
theorem bindTyped_faithful_iff (value : Json) (fieldType : Option FieldType) :
    Faithful readers reader value fieldType ↔ ((value.received reader).isSome = true → Keeps readers reader value fieldType) := by
  cases read : value.received reader with
  | none => exact iff_of_true (fun _ known => nomatch read.symm.trans known) (fun known => nomatch known)
  | some held =>
    have right : Faithful readers reader value fieldType ↔ Right readers value held fieldType := by
      constructor
      · exact fun faithful => faithful held read
      · intro right other again
        cases read.symm.trans again
        exact right
    refine right.trans (Iff.trans ?_ ⟨fun keeps _ => keeps, fun keeps => keeps rfl⟩)
    by_cases absent : value.isNull
    · cases value with
      | null =>
        cases read
        refine iff_of_true (fun bound stored ran kept => ?_) (keeps_null fieldType)
        cases ran
        cases storeIn_null.symm.trans kept
        exact .null
      | _ => cases absent
    · exact right_iff_keeps read (by simpa using absent) fieldType

end Bind

/-! A word that is no truth value, and a mixed array. -/

theorem bindTyped_loses :
    bindTyped noReaders (.str "yes".toList) (some .boolean) = .ok (.bool false) ∧
      ¬ Faithful noReaders wholeNumbers (.str "yes".toList) (some .boolean) ∧
      bindTyped noReaders (.arr [.str "a".toList, .number "1".toList]) (some .textArray) = .ok (.textArray ["a".toList]) ∧
      ¬ Faithful noReaders wholeNumbers (.arr [.str "a".toList, .number "1".toList]) (some .textArray) := by
  have stored : bindTyped noReaders (.str "yes".toList) (some .boolean) = .ok (.bool false) := rfl
  have dropped : bindTyped noReaders (.arr [.str "a".toList, .number "1".toList]) (some .textArray) =
      .ok (.textArray ["a".toList]) := rfl
  refine ⟨stored, fun faithful => ?_, dropped, fun faithful => ?_⟩
  · cases faithful _ rfl _ _ stored rfl with
    | boolean said => exact absurd said (by decide)
  · obtain ⟨texts, same⟩ := stores_texts.mp (faithful _ rfl _ _ dropped rfl)
    have number : Json.number "1".toList ∈ texts.map .str :=
      Json.arr.inj same ▸ List.mem_cons_of_mem _ List.mem_cons_self
    simp at number

end RootCx.Crud
