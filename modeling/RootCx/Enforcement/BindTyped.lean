import RootCx.Lib.Except
import RootCx.Lib.NumberLiterals
import RootCx.Postgres.Values

/-! # Typed binding in the SQL proxy

`sql_proxy.rs`: the parameters of a statement are bound by the types that
PostgreSQL inferred for them.  The binder gets what is kept of the JSON value in the request,
and what it binds is held against that value. -/

namespace RootCx.Enforcement

open RootCx.Text RootCx.Postgres List Except

inductive ParamType where
  | bool
  | int2
  | int4
  | int8
  | float4
  | float8
  | numeric
  | uuid
  | timestamptz
  | timestamp
  | date
  | json
  | textArray
  | uuidArray
  | other
  deriving DecidableEq, Repr

def ParamType.ofName (typeName : Text) : ParamType :=
  if typeName = "BOOL" then .bool
  else if typeName = "INT2" then .int2
  else if typeName = "INT4" then .int4
  else if typeName = "INT8" then .int8
  else if typeName = "FLOAT4" then .float4
  else if typeName = "FLOAT8" then .float8
  else if typeName = "NUMERIC" then .numeric
  else if typeName = "UUID" then .uuid
  else if typeName = "TIMESTAMPTZ" then .timestamptz
  else if typeName = "TIMESTAMP" then .timestamp
  else if typeName = "DATE" then .date
  else if typeName = "JSONB" ∨ typeName = "JSON" then .json
  else if typeName = "TEXT[]" then .textArray
  else if typeName = "UUID[]" then .uuidArray
  else .other

def asF64 : Json → Option ℚ
  | .number text => Json.finiteF64 text
  | _ => none

/-- The text of an element, or the empty text. -/
def strOrEmpty (item : Json) : Text := item.asStr.getD []

variable {value : Json} {text : Text} {items : List Json} {int : Int} {double : ℚ} {bound : SqlValue}

section Bind

variable (readers : Readers)

def bindInt (value : Json) (cast : Int → SqlValue) : Except Text SqlValue :=
  (okOr "expected integer" value.asI64).map cast

/-- A string that one of the crates reads. -/
def bindRead {α : Type} (value : Json) (kind : Text) (read : Text → Except Text α) (cast : α → SqlValue) :
    Except Text SqlValue := do
  let text ← okOr ("expected string for " ++ kind) value.asStr
  let result ← (read text).mapError fun message => "invalid " ++ kind ++ ": " ++ message
  .ok (cast result)

def bindNumeric (value : Json) : Except Text SqlValue := do
  let literal ← okOr "expected string for exact decimal" value.asStr
  let decimal ← okOr ("invalid decimal: '" ++ literal ++ "'") (readers.decimal literal)
  .ok (.numeric decimal)

def bindUuids (items : List Json) : Except Text SqlValue :=
  ((items.mapM fun item => readers.uuid (strOrEmpty item)).mapError
    fun message => "invalid uuid in array: ".toList ++ message).map .uuidArray

def bindTypedValue (value : Json) (typeName : Text) : Except Text SqlValue :=
  if value.isNull then .ok (.null (if typeName = "NUMERIC".toList then .numeric else .text))
  else
    match ParamType.ofName typeName with
    | .bool => (okOr "expected bool".toList value.asBool).map .bool
    -- `as`: the low bits of the integer
    | .int2 => bindInt value fun int => .int2 (Int16.ofInt int)
    | .int4 => bindInt value fun int => .int4 (Int32.ofInt int)
    | .int8 => bindInt value fun int => .int8 (Int64.ofInt int)
    | .float4 => (okOr "expected number".toList (asF64 value)).map fun double => .float4 (binary32.nearest double)
    | .float8 => (okOr "expected number".toList (asF64 value)).map .float8
    | .numeric => bindNumeric readers value
    | .uuid => bindRead value "uuid".toList readers.uuid .uuid
    | .timestamptz => bindRead value "timestamptz".toList readers.instant fun instant => .timestamptz (microseconds instant)
    | .timestamp => bindRead value "timestamp".toList readers.localInstant fun instant => .timestamp (microseconds instant)
    | .date => bindRead value "date".toList readers.date .date
    | .json => .ok (.json value)
    | .textArray =>
      match value with
      | .arr items => .ok (.textArray (items.map strOrEmpty))
      | _ => .error "expected array for TEXT[]".toList
    | .uuidArray =>
      match value with
      | .arr items => bindUuids readers items
      | _ => .error "expected array for UUID[]".toList
    -- works for many types that accept text input
    | .other => .ok (.text (value.asStr.getD value.compact))

/-- What the statement gets is what the JSON value says. -/
inductive Denotes : Json → SqlValue → Prop where
  | null {sqlType : SqlType} : Denotes .null (.null sqlType)
  | bool {value : Bool} : Denotes (.bool value) (.bool value)
  | int2 {text : Text} {int : Int16} (same : Json.literalValue text = some (int.toInt : ℚ)) :
      Denotes (.number text) (.int2 int)
  | int4 {text : Text} {int : Int32} (same : Json.literalValue text = some (int.toInt : ℚ)) :
      Denotes (.number text) (.int4 int)
  | int8 {text : Text} {int : Int64} (same : Json.literalValue text = some (int.toInt : ℚ)) :
      Denotes (.number text) (.int8 int)
  | float4 {text : Text} {value : ℚ} (same : Json.literalValue text = some value) :
      Denotes (.number text) (.float4 (.finite value))
  | float8 {text : Text} {value : ℚ} (same : Json.literalValue text = some value) : Denotes (.number text) (.float8 value)
  | numeric {text : Text} {value : ℚ} (same : readers.decimal text = some value) : Denotes (.str text) (.numeric value)
  | uuid {text : Text} {value : Nat} (same : readers.uuid text = .ok value) : Denotes (.str text) (.uuid value)
  | timestamptz {text : Text} {value : Int} (same : readers.instant text = .ok (value * 1000)) :
      Denotes (.str text) (.timestamptz value)
  | timestamp {text : Text} {value : Int} (same : readers.localInstant text = .ok (value * 1000)) :
      Denotes (.str text) (.timestamp value)
  | date {text : Text} {value : Int} (same : readers.date text = .ok value) : Denotes (.str text) (.date value)
  | json {value held : Json} (alike : value.Alike held) : Denotes value (.json held)
  | textArray {items : List Text} : Denotes (.arr (items.map .str)) (.textArray items)
  | uuidArray {texts : List Text} {ids : List Nat} (same : texts.map readers.uuid = ids.map .ok) :
      Denotes (.arr (texts.map .str)) (.uuidArray ids)
  | text {text : Text} : Denotes (.str text) (.text text)
  -- the text that stands for a value that is no string
  | print {value held : Json} (unquoted : value.isStr = false) (numeric : held.Numeric) (alike : value.Alike held) :
      Denotes value (.text held.compact)

/-- A value is refused, or bound to what it says. -/
def Exact (reader : NumberReader) (value : Json) (typeName : Text) : Prop :=
  ∀ held bound, value.received reader = some held → bindTypedValue readers held typeName = .ok bound →
    Denotes readers value bound

/-- The values that a type keeps. -/
def Keeps (reader : NumberReader) (value : Json) : ParamType → Prop
  | .int2 => ∀ int, value = .number (ofInt int) → -2 ^ 63 ≤ int → int < 2 ^ 63 → -2 ^ 15 ≤ int ∧ int < 2 ^ 15
  | .int4 => ∀ int, value = .number (ofInt int) → -2 ^ 63 ≤ int → int < 2 ^ 63 → -2 ^ 31 ≤ int ∧ int < 2 ^ 31
  -- a literal that is no integer of 64 bits is kept as a double
  | .float4 => (∀ int, value = .number (ofInt int) → -2 ^ 63 ≤ int → int < 2 ^ 64 → binary32.Represents int) ∧
      ∀ text printed double, value = .number text → reader.read text = some printed → signedValue printed = none →
        Json.finiteF64 printed = some double →
          ∃ number, Json.literalValue text = some number ∧ binary32.nearest double = .finite number
  | .float8 => (∀ int, value = .number (ofInt int) → -2 ^ 63 ≤ int → int < 2 ^ 64 → binary64.Represents int) ∧
      ∀ text, value = .number text → Json.Kept reader text
  | .json | .other => ∀ text ∈ value.numbers, Json.Kept reader text
  | .timestamptz => ∀ text instant, value = .str text → readers.instant text = .ok instant → 1000 ∣ instant
  | .timestamp => ∀ text instant, value = .str text → readers.localInstant text = .ok instant → 1000 ∣ instant
  | .textArray => ∀ items, value = .arr items → ∀ item ∈ items, item.isStr
  | _ => True

/-! ## Numbers -/

section Numbers

theorem toInt16_eq_iff : (Int16.ofInt int).toInt = int ↔ -2 ^ 15 ≤ int ∧ int < 2 ^ 15 := by
  rw [Int16.toInt_ofInt, Int.bmod, Int16.size]
  split <;> omega

theorem toInt32_eq_iff : (Int32.ofInt int).toInt = int ↔ -2 ^ 31 ≤ int ∧ int < 2 ^ 31 := by
  rw [Int32.toInt_ofInt, Int.bmod, Int32.size]
  split <;> omega

theorem toInt64_eq_iff : (Int64.ofInt int).toInt = int ↔ -2 ^ 63 ≤ int ∧ int < 2 ^ 63 := by
  rw [Int64.toInt_ofInt, Int.bmod, Int64.size]
  split <;> omega

theorem bindInt_eq_ok {cast : Int → SqlValue} :
    bindInt value cast = .ok bound ↔ ∃ int, value.asI64 = some int ∧ cast int = bound := by
  unfold bindInt okOr
  cases value.asI64 <;> simp [Except.map]

theorem map_okOr_eq_ok {α : Type} {failure : Text} {read : Option α} {cast : α → SqlValue} :
    (okOr failure read).map cast = .ok bound ↔ ∃ result, read = some result ∧ cast result = bound := by
  cases read <;> simp [okOr, Except.map]

end Numbers

/-! ## Exactness for each type -/

section Types

variable {readers} {reader : NumberReader} {value held : Json}

/-- What the binder makes of the kept value says what the value says. -/
def Right (readers : Readers) (value : Json) (result : Except Text SqlValue) : Prop :=
  ∀ bound, result = .ok bound → Denotes readers value bound

theorem int_exact {cast : Int → SqlValue} {InRange : Int → Prop} (read : value.received reader = some held)
    (kept : ∀ int, -2 ^ 63 ≤ int → int < 2 ^ 63 → (Denotes readers (.number (ofInt int)) (cast int) ↔ InRange int)) :
    Right readers value (bindInt held cast) ↔
      ∀ int, value = .number (ofInt int) → -2 ^ 63 ≤ int → int < 2 ^ 63 → InRange int := by
  constructor
  · rintro exact int rfl low high
    obtain ⟨printed, known, rfl⟩ := Json.received_number.mp read
    cases (reader.whole int low (by omega)).symm.trans known
    exact (kept int low high).mp (exact _ (bindInt_eq_ok.mpr ⟨int, Json.asI64_ofInt low high, rfl⟩))
  · intro keeps bound ran
    obtain ⟨int, whole, rfl⟩ := bindInt_eq_ok.mp ran
    cases held with
    | number printed =>
      obtain ⟨spelled, low, high⟩ := parseI64_eq_some.mp whole
      obtain ⟨text, rfl, known⟩ := Json.number_of_received read
      obtain ⟨int', -, -, rfl, rfl⟩ | ⟨unsigned, -⟩ := Json.kept_cases known
      · cases (signedValue_ofInt int').symm.trans spelled
        exact (kept int low high).mpr (keeps int rfl low high)
      · cases unsigned.symm.trans spelled
    | null | bool _ | str _ | arr _ | obj _ => cases whole

theorem denotes_int2 : Denotes readers (.number (ofInt int)) (.int2 (Int16.ofInt int)) ↔ -2 ^ 15 ≤ int ∧ int < 2 ^ 15 := by
  constructor
  · intro denotes
    cases denotes with
    | int2 same =>
      rw [Json.literalValue_ofInt, Option.some.injEq, Int.cast_inj] at same
      exact toInt16_eq_iff.mp same.symm
  · intro bounds
    exact .int2 (by rw [Json.literalValue_ofInt, toInt16_eq_iff.mpr bounds])

theorem denotes_int4 : Denotes readers (.number (ofInt int)) (.int4 (Int32.ofInt int)) ↔ -2 ^ 31 ≤ int ∧ int < 2 ^ 31 := by
  constructor
  · intro denotes
    cases denotes with
    | int4 same =>
      rw [Json.literalValue_ofInt, Option.some.injEq, Int.cast_inj] at same
      exact toInt32_eq_iff.mp same.symm
  · intro bounds
    exact .int4 (by rw [Json.literalValue_ofInt, toInt32_eq_iff.mpr bounds])

/-- No 64-bit integer is too large for `INT8`. -/
theorem denotes_int8 (low : -2 ^ 63 ≤ int) (high : int < 2 ^ 63) :
    Denotes readers (.number (ofInt int)) (.int8 (Int64.ofInt int)) :=
  .int8 (by rw [Json.literalValue_ofInt, toInt64_eq_iff.mpr ⟨low, high⟩])

/-- A float type binds what it makes of the double of the kept number. -/
theorem float_exact {failure : Text} (cast : ℚ → SqlValue) {Fits : Int → Prop} {Reads : Text → ℚ → Prop}
    (read : value.received reader = some held)
    (integers : ∀ (int : Int) double, binary64.nearest int = .finite double →
      (Denotes readers (.number (ofInt int)) (cast double) ↔ Fits int))
    (doubles : ∀ text double, Denotes readers (.number text) (cast double) ↔ Reads text double) :
    Right readers value ((okOr failure (asF64 held)).map cast) ↔
      (∀ int, value = .number (ofInt int) → -2 ^ 63 ≤ int → int < 2 ^ 64 → Fits int) ∧
        ∀ text printed double, value = .number text → reader.read text = some printed → signedValue printed = none →
          Json.finiteF64 printed = some double → Reads text double := by
  constructor
  · intro exact
    constructor
    · rintro int rfl low high
      obtain ⟨printed, known, rfl⟩ := Json.received_number.mp read
      cases (reader.whole int low high).symm.trans known
      obtain ⟨double, finite, rounded⟩ := Json.finiteF64_ofInt low high
      exact (integers int double rounded).mp (exact _ (map_okOr_eq_ok.mpr ⟨double, finite, rfl⟩))
    · rintro text printed double rfl known unsigned finite
      obtain ⟨other, again, rfl⟩ := Json.received_number.mp read
      cases known.symm.trans again
      exact (doubles text double).mp (exact _ (map_okOr_eq_ok.mpr ⟨double, finite, rfl⟩))
  · rintro ⟨whole, rest⟩ bound ran
    obtain ⟨double, finite, rfl⟩ := map_okOr_eq_ok.mp ran
    cases held with
    | number printed =>
      obtain ⟨text, rfl, known⟩ := Json.number_of_received read
      obtain ⟨int, low, high, rfl, rfl⟩ | ⟨unsigned, -⟩ := Json.kept_cases known
      · obtain ⟨other, again, rounded⟩ := Json.finiteF64_ofInt low high
        cases again.symm.trans finite
        exact (integers int double rounded).mpr (whole int rfl low high)
      · exact (doubles text double).mpr (rest text printed double rfl known unsigned finite)
    | null | bool _ | str _ | arr _ | obj _ => cases finite

theorem denotes_float8 {text : Text} : Denotes readers (.number text) (.float8 double) ↔ Json.literalValue text = some double := by
  constructor
  · intro denotes
    cases denotes with
    | float8 same => exact same
  · exact .float8

theorem denotes_float4 {text : Text} : Denotes readers (.number text) (.float4 (binary32.nearest double)) ↔
    ∃ number, Json.literalValue text = some number ∧ binary32.nearest double = .finite number := by
  constructor
  · intro denotes
    generalize shape : binary32.nearest double = single at denotes
    cases denotes with
    | float4 same => exact ⟨_, same, rfl⟩
  · rintro ⟨number, same, rounded⟩
    rw [rounded]
    exact .float4 same

theorem float8_integers {int : Int} (rounded : binary64.nearest int = .finite double) :
    Denotes readers (.number (ofInt int)) (.float8 double) ↔ binary64.Represents int := by
  rw [denotes_float8, Json.literalValue_ofInt, Option.some.injEq]
  constructor
  · rintro rfl
    exact BinaryFormat.represents_of_nearest (by decide) rounded
  · intro represented
    cases (BinaryFormat.nearest_of_represents represented).symm.trans rounded
    rfl

theorem float4_integers {int : Int} (rounded : binary64.nearest int = .finite double) :
    Denotes readers (.number (ofInt int)) (.float4 (binary32.nearest double)) ↔ binary32.Represents int := by
  rw [denotes_float4, Json.literalValue_ofInt]
  constructor
  · rintro ⟨number, same, single⟩
    cases same
    exact BinaryFormat.represents_of_nearest (by decide) single
  · intro represented
    cases (BinaryFormat.nearest_of_represents (represents_widen represented)).symm.trans rounded
    exact ⟨int, rfl, BinaryFormat.nearest_of_represents represented⟩

/-- Where the double is the number that is kept, it is right when that number is. -/
theorem kept_iff {text : Text} : (∀ printed double, reader.read text = some printed → signedValue printed = none →
    Json.finiteF64 printed = some double → Json.literalValue text = some double) ↔ Json.Kept reader text := by
  constructor
  · intro each printed known
    obtain ⟨int, -, -, -, rfl⟩ | ⟨unsigned, double, finite, stands⟩ := Json.kept_cases known
    · rfl
    · rw [stands]
      exact each printed double known unsigned finite
  · intro kept printed double known unsigned finite
    rw [kept printed known, Json.literalValue, unsigned]
    exact finite

theorem json_exact (read : value.received reader = some held) :
    Right readers value (.ok (.json held)) ↔ ∀ text ∈ value.numbers, Json.Kept reader text := by
  rw [← Json.alike_received read]
  constructor
  · intro exact
    cases exact _ rfl with
    | json alike => exact alike
  · rintro alike bound ⟨⟩
    exact .json alike

theorem other_exact (read : value.received reader = some held) :
    Right readers value (.ok (.text (held.asStr.getD held.compact))) ↔ ∀ text ∈ value.numbers, Json.Kept reader text := by
  obtain ⟨f, same⟩ := Json.exists_mapNumbers read
  rw [← Json.alike_received read]
  constructor
  · intro exact
    have denotes := exact _ rfl
    generalize shape : SqlValue.text (held.asStr.getD held.compact) = bound at denotes
    cases value with
    | str text =>
      subst same
      exact .str
    | _ =>
      have bare : held.asStr = none := by rw [same]; rfl
      rw [bare, Option.getD_none] at shape
      cases denotes with
      | print unquoted numeric alike =>
        exact Json.compact_injective numeric (Json.numeric_received read) (SqlValue.text.inj shape).symm ▸ alike
      | _ => cases shape
  · rintro alike bound ⟨⟩
    cases value with
    | str text =>
      subst same
      exact .text
    | _ =>
      have bare : held.asStr = none := by rw [same]; rfl
      rw [bare]
      exact .print rfl (Json.numeric_received read) alike

theorem read_exact {α : Type} {kind : Text} {read : Text → Except Text α} {cast : α → SqlValue} :
    Right readers value (bindRead value kind read cast) ↔
      ∀ text result, value = .str text → read text = .ok result → Denotes readers (.str text) (cast result) := by
  constructor
  · rintro exact text result rfl ran
    exact exact _ (bind_eq_ok.mpr ⟨text, rfl, bind_eq_ok.mpr ⟨result, mapError_eq_ok.mpr ran, rfl⟩⟩)
  · intro each bound ran
    obtain ⟨text, string, ran⟩ := bind_eq_ok.mp ran
    obtain ⟨result, read, same⟩ := bind_eq_ok.mp ran
    obtain rfl := ok.inj same
    cases value with
    | str text' =>
      obtain rfl := Option.some.inj (okOr_eq_ok.mp string)
      exact each text' result rfl (mapError_eq_ok.mp read)
    | _ => cases okOr_eq_ok.mp string

theorem denotes_timestamptz {instant : Int} (read : readers.instant text = .ok instant) :
    Denotes readers (.str text) (.timestamptz (microseconds instant)) ↔ 1000 ∣ instant := by
  rw [← microseconds_exact]
  constructor
  · intro denotes
    cases denotes with
    | timestamptz same => exact (ok.inj (read.symm.trans same)).symm
  · intro exact
    exact .timestamptz (by rw [exact, read])

theorem denotes_timestamp {instant : Int} (read : readers.localInstant text = .ok instant) :
    Denotes readers (.str text) (.timestamp (microseconds instant)) ↔ 1000 ∣ instant := by
  rw [← microseconds_exact]
  constructor
  · intro denotes
    cases denotes with
    | timestamp same => exact (ok.inj (read.symm.trans same)).symm
  · intro exact
    exact .timestamp (by rw [exact, read])

theorem denotes_numeric (ran : bindNumeric readers value = .ok bound) : Denotes readers value bound := by
  obtain ⟨literal, string, ran⟩ := bind_eq_ok.mp ran
  obtain ⟨decimal, read, same⟩ := bind_eq_ok.mp ran
  cases same
  cases value with
  | str text =>
    cases okOr_eq_ok.mp string
    exact .numeric (okOr_eq_ok.mp read)
  | _ => cases okOr_eq_ok.mp string

/-! ## Arrays -/

theorem strings_of_isStr (strings : ∀ item ∈ items, item.isStr) :
    items = (items.map strOrEmpty).map .str := by
  rw [map_map]
  refine (map_id'' (fun _ => rfl) items).symm.trans (map_congr_left fun item mem => ?_)
  cases item with
  | str text => rfl
  | _ => cases strings _ mem

theorem denotes_textArray :
    Denotes readers (.arr items) (.textArray (items.map strOrEmpty)) ↔ ∀ item ∈ items, item.isStr := by
  constructor
  · intro denotes
    generalize items.map strOrEmpty = texts at denotes
    cases denotes with
    | textArray =>
      intro item mem
      obtain ⟨text, -, rfl⟩ := mem_map.mp mem
      rfl
  · intro strings
    have same := strings_of_isStr strings
    generalize items.map strOrEmpty = texts at same ⊢
    rw [same]
    exact .textArray

theorem mapM_uuid_ok {items : List Json} {ids : List Nat}
    (ran : (items.mapM fun item => readers.uuid (strOrEmpty item)) = .ok ids) :
    (∀ item ∈ items, item.isStr) ∧ (items.map strOrEmpty).map readers.uuid = ids.map .ok := by
  induction items generalizing ids with
  | nil =>
    obtain rfl := pure_eq_ok.mp ran
    exact ⟨fun item mem => absurd mem not_mem_nil, rfl⟩
  | cons item items ih =>
    rw [mapM_cons] at ran
    obtain ⟨first, one, ran⟩ := bind_eq_ok.mp ran
    obtain ⟨others, many, done⟩ := bind_eq_ok.mp ran
    obtain rfl := pure_eq_ok.mp done
    obtain ⟨strings, same⟩ := ih many
    refine ⟨?_, by rw [map_cons, map_cons, map_cons, one, same]⟩
    intro element mem
    obtain rfl | older := mem_cons.mp mem
    · cases element with
      | str text => rfl
      | _ => exact absurd one (readers.uuid_nil first)
    · exact strings element older

theorem denotes_uuidArray (ran : bindUuids readers items = .ok bound) :
    Denotes readers (.arr items) bound := by
  unfold bindUuids at ran
  cases each : items.mapM fun item => readers.uuid (strOrEmpty item) with
  | error message =>
    rw [each] at ran
    cases ran
  | ok ids =>
    rw [each] at ran
    cases ran
    obtain ⟨strings, same⟩ := mapM_uuid_ok each
    rw [strings_of_isStr strings]
    exact .uuidArray same

end Types

/-! ## Every type -/

section Every

variable {reader : NumberReader} {value held : Json}

/-- The elements of an array are read apart from its numbers. -/
theorem strOrEmpty_mapItems (f : Text → Text) (items : List Json) :
    (items.map (Json.mapNumbers f)).map strOrEmpty = items.map strOrEmpty := by
  rw [map_map]
  exact map_congr_left fun item _ => congrArg (·.getD []) (item.asStr_mapNumbers f)

theorem bindUuids_eq (items : List Json) : bindUuids readers items =
    (((items.map strOrEmpty).mapM readers.uuid).mapError fun message => "invalid uuid in array: ".toList ++ message).map .uuidArray := by
  rw [bindUuids, mapM_map]
  rfl

theorem keeps_null (reader : NumberReader) (paramType : ParamType) : Keeps readers reader .null paramType := by
  cases paramType <;> simp [Keeps, Json.numbers]

theorem right_iff_keeps (present : value.isNull = false) (read : value.received reader = some held) (typeName : Text) :
    Right readers value (bindTypedValue readers held typeName) ↔ Keeps readers reader value (ParamType.ofName typeName) := by
  obtain ⟨f, same⟩ := Json.exists_mapNumbers read
  have known : held.isNull = false := by rw [same, Json.isNull_mapNumbers, present]
  have string : held.asStr = value.asStr := by rw [same, Json.asStr_mapNumbers]
  unfold bindTypedValue
  simp only [known, Bool.false_eq_true, if_false]
  generalize ParamType.ofName typeName = paramType
  cases paramType with
  | bool =>
    refine iff_of_true (fun bound ran => ?_) trivial
    obtain ⟨truth, said, rfl⟩ := map_okOr_eq_ok.mp ran
    rw [same, Json.asBool_mapNumbers] at said
    cases value with
    | bool =>
      cases said
      exact .bool
    | _ => cases said
  | int2 => exact int_exact read fun _ _ _ => denotes_int2
  | int4 => exact int_exact read fun _ _ _ => denotes_int4
  | int8 => exact iff_of_true ((int_exact read fun _ low high => iff_of_true (denotes_int8 low high) trivial).mpr
      fun _ _ _ _ => trivial) trivial
  | float4 => exact float_exact (fun double => .float4 (binary32.nearest double)) read (fun _ _ => float4_integers) fun _ _ => denotes_float4
  | float8 =>
    rw [float_exact .float8 read (fun _ _ => float8_integers) fun _ _ => denotes_float8]
    refine and_congr_right fun _ => ?_
    constructor
    · rintro each text rfl
      exact kept_iff.mp fun printed double => each text printed double rfl
    · intro kept text printed double written
      exact kept_iff.mpr (kept text written) printed double
  | numeric =>
    refine iff_of_true (fun bound ran => ?_) trivial
    unfold bindNumeric at ran
    rw [string] at ran
    exact denotes_numeric ran
  | uuid =>
    unfold bindRead
    rw [string]
    exact iff_of_true (read_exact.mpr fun _ _ _ read => .uuid read) trivial
  | timestamptz =>
    unfold bindRead
    rw [string]
    exact read_exact.trans (forall₄_congr fun _ _ _ read => denotes_timestamptz read)
  | timestamp =>
    unfold bindRead
    rw [string]
    exact read_exact.trans (forall₄_congr fun _ _ _ read => denotes_timestamp read)
  | date =>
    unfold bindRead
    rw [string]
    exact iff_of_true (read_exact.mpr fun _ _ _ read => .date read) trivial
  | json => exact json_exact read
  | other => exact other_exact read
  | textArray =>
    subst same
    cases value with
    | arr items =>
      rw [Json.mapNumbers_arr]
      dsimp only
      rw [strOrEmpty_mapItems]
      constructor
      · intro exact others same
        obtain rfl := Json.arr.inj same
        exact denotes_textArray.mp (exact _ rfl)
      · rintro strings bound ⟨⟩
        exact denotes_textArray.mpr (strings items rfl)
    | _ => exact iff_of_true (fun _ ran => by cases ran) (fun _ same => by cases same)
  | uuidArray =>
    subst same
    refine iff_of_true (fun bound ran => ?_) trivial
    cases value with
    | arr items =>
      rw [Json.mapNumbers_arr] at ran
      dsimp only at ran
      rw [bindUuids_eq, strOrEmpty_mapItems, ← bindUuids_eq] at ran
      exact denotes_uuidArray ran
    | _ => cases ran

/-- A value is refused or bound to what it says, exactly when one of its numbers is out of
    range or its type keeps it. -/
theorem bindTypedValue_exact_iff (reader : NumberReader) (value : Json) (typeName : Text) :
    Exact readers reader value typeName ↔
      ((value.received reader).isSome = true → Keeps readers reader value (ParamType.ofName typeName)) := by
  cases read : value.received reader with
  | none => exact iff_of_true (fun _ _ known => nomatch read.symm.trans known) (fun known => nomatch known)
  | some held =>
    have right : Exact readers reader value typeName ↔ Right readers value (bindTypedValue readers held typeName) := by
      constructor
      · exact fun exact bound => exact held bound read
      · intro right other bound again
        cases read.symm.trans again
        exact right bound
    refine right.trans (Iff.trans ?_ ⟨fun keeps _ => keeps, fun keeps => keeps rfl⟩)
    by_cases absent : value.isNull
    · cases value with
      | null =>
        cases read
        refine iff_of_true (fun bound ran => ?_) (keeps_null readers reader _)
        cases ran
        exact .null
      | _ => cases absent
    · exact right_iff_keeps readers (by simpa using absent) read typeName

end Every

end Bind

/-! The first integer behind `INT4`, and a mixed array. -/

theorem bindTypedValue_wraps :
    bindTypedValue noReaders (.number "2147483648".toList) "INT4".toList = .ok (.int4 (-2147483648)) ∧
      ¬ Exact noReaders wholeNumbers (.number "2147483648".toList) "INT4".toList ∧
      bindTypedValue noReaders (.arr [.str "a".toList, .number "1".toList]) "TEXT[]".toList =
        .ok (.textArray ["a".toList, []]) ∧
      ¬ Exact noReaders wholeNumbers (.arr [.str "a".toList, .number "1".toList]) "TEXT[]".toList := by
  have wraps : bindTypedValue noReaders (.number "2147483648".toList) "INT4".toList = .ok (.int4 (-2147483648)) := rfl
  have replaces : bindTypedValue noReaders (.arr [.str "a".toList, .number "1".toList]) "TEXT[]".toList =
      .ok (.textArray ["a".toList, []]) := rfl
  refine ⟨wraps, fun exact => ?_, replaces, fun exact => ?_⟩
  · cases exact _ _ rfl wraps with
    | int4 same => exact absurd same (by decide)
  · have strings : ∀ item ∈ [Json.str "a".toList, .number "1".toList], item.isStr := denotes_textArray.mp (exact _ _ rfl replaces)
    exact absurd (strings _ (List.mem_cons_of_mem _ List.mem_cons_self)) (by decide)

end RootCx.Enforcement
