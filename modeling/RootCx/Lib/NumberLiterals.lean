import RootCx.Lib.JsonText
import RootCx.Lib.NumberText

/-! # Number literals and what is kept of them

A JSON library keeps an integer of 64 bits as it is, and any other literal as a double, which
need not be the nearest one.  What it keeps is a parameter, by the text that it prints for the
number; a value is read literal by literal. -/

namespace RootCx

open List

/-- What is kept of the literals that are in range. -/
structure NumberReader where
  read : Text → Option Text
  whole : ∀ int : Int, -2 ^ 63 ≤ int → int < 2 ^ 64 → read (Text.ofInt int) = some (Text.ofInt int)
  -- a double is printed with a point or an exponent
  double : ∀ text printed, read text = some printed →
    (∃ int : Int, -2 ^ 63 ≤ int ∧ int < 2 ^ 64 ∧ text = Text.ofInt int) ∨
      (Text.signedValue printed = none ∧ (Json.finiteF64 printed).isSome = true)
  numeric : ∀ text printed, read text = some printed → Json.Numeric (.number printed)
  -- the grammar has one spelling of an integer, apart from a zero with a sign
  grammar : ∀ text printed int, read text = some printed → Text.signedValue text = some int →
    text = Text.ofInt int ∨ int = 0 ∧ Json.finiteF64 printed = some 0

/-- `Value::as_f64` of a literal. -/
def NumberReader.asF64 (reader : NumberReader) (text : Text) : Option ℚ := (reader.read text).bind Json.finiteF64

theorem Json.numeric_ofInt (int : Int) : (Json.number (Text.ofInt int)).Numeric := by
  have digits (n : Nat) : (Nat.toDigits 10 n).all Json.isNumberChar = true :=
    all_eq_true.mpr fun c mem => by simp [Json.isNumberChar, Text.isDigit_of_mem_toDigits mem]
  cases int with
  | ofNat n =>
    refine ⟨?_, digits n⟩
    obtain ⟨c, rest, same⟩ := exists_cons_of_ne_nil (Nat.toDigits_ne_nil (n := n) (b := 10))
    have digit : c.isDigit = true := Text.isDigit_of_mem_toDigits (n := n) (same ▸ mem_cons_self)
    rw [Text.ofInt, same]
    simp [digit]
  | negSucc n => exact ⟨rfl, by rw [Text.ofInt, all_cons, digits]; rfl⟩

/-- A reader that knows the integers of 64 bits alone. -/
def wholeNumbers : NumberReader where
  read text := (Text.signedValue text).bind fun int =>
    if -2 ^ 63 ≤ int ∧ int < 2 ^ 64 ∧ Text.ofInt int = text then some text else none
  whole int low high := by
    rw [Text.signedValue_ofInt]
    exact if_pos ⟨low, high, rfl⟩
  double text printed read := by
    obtain ⟨int, -, read⟩ := Option.bind_eq_some_iff.mp read
    obtain ⟨⟨low, high, same⟩, -⟩ := Option.ite_none_right_eq_some.mp read
    exact .inl ⟨int, low, high, same.symm⟩
  numeric text printed read := by
    obtain ⟨int, -, read⟩ := Option.bind_eq_some_iff.mp read
    obtain ⟨⟨low, high, rfl⟩, same⟩ := Option.ite_none_right_eq_some.mp read
    exact Option.some.inj same ▸ Json.numeric_ofInt int
  grammar text printed int read signed := by
    obtain ⟨int', signed', read⟩ := Option.bind_eq_some_iff.mp read
    obtain ⟨⟨-, -, same⟩, -⟩ := Option.ite_none_right_eq_some.mp read
    cases signed.symm.trans signed'
    exact .inl same.symm

namespace Json

variable {text printed : Text} {value : Json}

/-! ## The numbers of a value -/

mutual

def numbers : Json → List Text
  | .number text => [text]
  | .arr items => itemNumbers items
  | .obj entries => entryNumbers entries
  | .null | .bool _ | .str _ => []

def itemNumbers : List Json → List Text
  | [] => []
  | item :: rest => numbers item ++ itemNumbers rest

def entryNumbers : List (Text × Json) → List Text
  | [] => []
  | (_, value) :: rest => numbers value ++ entryNumbers rest

end

mutual

def mapNumbers (f : Text → Text) : Json → Json
  | .number text => .number (f text)
  | .arr items => .arr (mapItems f items)
  | .obj entries => .obj (mapEntries f entries)
  | .null => .null
  | .bool value => .bool value
  | .str value => .str value

def mapItems (f : Text → Text) : List Json → List Json
  | [] => []
  | item :: rest => mapNumbers f item :: mapItems f rest

def mapEntries (f : Text → Text) : List (Text × Json) → List (Text × Json)
  | [] => []
  | (key, value) :: rest => (key, mapNumbers f value) :: mapEntries f rest

end

theorem numbers_arr (items : List Json) : numbers (.arr items) = items.flatMap numbers := by
  show itemNumbers items = _
  induction items with
  | nil => rfl
  | cons item rest ih => rw [itemNumbers, ih, flatMap_cons]

theorem numbers_obj (entries : List (Text × Json)) : numbers (.obj entries) = entries.flatMap fun entry => numbers entry.2 := by
  show entryNumbers entries = _
  induction entries with
  | nil => rfl
  | cons entry rest ih => rw [entryNumbers, ih, flatMap_cons]

theorem mapNumbers_arr (f : Text → Text) (items : List Json) :
    mapNumbers f (.arr items) = .arr (items.map (mapNumbers f)) := by
  have each : mapItems f items = items.map (mapNumbers f) := by
    induction items with
    | nil => rfl
    | cons item rest ih => rw [mapItems, ih, map_cons]
  rw [mapNumbers, each]

theorem mapNumbers_obj (f : Text → Text) (entries : List (Text × Json)) :
    mapNumbers f (.obj entries) = .obj (entries.map fun entry => (entry.1, mapNumbers f entry.2)) := by
  have each : mapEntries f entries = entries.map fun entry => (entry.1, mapNumbers f entry.2) := by
    induction entries with
    | nil => rfl
    | cons entry rest ih => rw [mapEntries, ih, map_cons]
  rw [mapNumbers, each]

theorem mapNumbers_eq_self {f : Text → Text} (same : ∀ text ∈ value.numbers, f text = text) : value.mapNumbers f = value := by
  induction value with
  | null | bool _ | str _ => rfl
  | number text => exact congrArg Json.number (same text (mem_singleton.mpr rfl))
  | arr items ih =>
    rw [numbers_arr] at same
    rw [mapNumbers_arr, map_congr_left fun item inside => ih item inside fun text mem =>
      same text (mem_flatMap.mpr ⟨item, inside, mem⟩), map_id']
  | obj entries ih =>
    rw [numbers_obj] at same
    have each : ∀ entry ∈ entries, (entry.1, mapNumbers f entry.2) = entry := fun entry inside =>
      Prod.ext rfl (ih entry inside fun text mem => same text (mem_flatMap.mpr ⟨entry, inside, mem⟩))
    rw [mapNumbers_obj, map_congr_left each, map_id']

/-- Values that differ in the texts of their numbers only, not in what these stand for. -/
inductive Alike : Json → Json → Prop where
  | null : Alike .null .null
  | bool {value : Bool} : Alike (.bool value) (.bool value)
  | number {text text' : Text} (same : literalValue text = literalValue text') : Alike (.number text) (.number text')
  | str {value : Text} : Alike (.str value) (.str value)
  | arr {items items' : List Json} (each : List.Forall₂ Alike items items') : Alike (.arr items) (.arr items')
  | obj {entries entries' : List (Text × Json)} (keys : entries.map Prod.fst = entries'.map Prod.fst)
      (each : List.Forall₂ Alike (entries.map Prod.snd) (entries'.map Prod.snd)) : Alike (.obj entries) (.obj entries')

theorem alike_mapNumbers {f : Text → Text} :
    Alike value (value.mapNumbers f) ↔ ∀ text ∈ value.numbers, literalValue text = literalValue (f text) := by
  induction value with
  | null => exact iff_of_true .null fun _ mem => absurd mem not_mem_nil
  | bool value => exact iff_of_true .bool fun _ mem => absurd mem not_mem_nil
  | str value => exact iff_of_true .str fun _ mem => absurd mem not_mem_nil
  | number text =>
    have single : numbers (.number text) = [text] := rfl
    rw [single, forall_mem_singleton]
    constructor
    · intro alike
      cases alike with
      | number same => exact same
    · exact .number
  | arr items ih =>
    have each : List.Forall₂ Alike items (items.map (mapNumbers f)) ↔ ∀ item ∈ items, Alike item (item.mapNumbers f) := by
      rw [forall₂_map_right_iff, forall₂_same]
    rw [mapNumbers_arr, numbers_arr]
    constructor
    · intro alike text mem
      obtain ⟨item, inside, mem⟩ := mem_flatMap.mp mem
      cases alike with
      | arr alike => exact (ih item inside).mp (each.mp alike item inside) text mem
    · intro same
      exact .arr (each.mpr fun item inside => (ih item inside).mpr fun text mem =>
        same text (mem_flatMap.mpr ⟨item, inside, mem⟩))
  | obj entries ih =>
    have values : (entries.map fun entry => (entry.1, mapNumbers f entry.2)).map Prod.snd =
        entries.map fun entry => mapNumbers f entry.2 := by rw [map_map]; rfl
    have keys : entries.map Prod.fst = (entries.map fun entry => (entry.1, mapNumbers f entry.2)).map Prod.fst := by
      rw [map_map]; rfl
    have each : List.Forall₂ Alike (entries.map Prod.snd) (entries.map fun entry => mapNumbers f entry.2) ↔
        ∀ entry ∈ entries, Alike entry.2 (entry.2.mapNumbers f) := by
      rw [forall₂_map_left_iff, forall₂_map_right_iff, forall₂_same]
    rw [mapNumbers_obj, numbers_obj]
    constructor
    · intro alike text mem
      obtain ⟨entry, inside, mem⟩ := mem_flatMap.mp mem
      cases alike with
      | obj _ alike => exact (ih entry inside).mp (each.mp (values ▸ alike) entry inside) text mem
    · intro same
      refine .obj keys (values.symm ▸ each.mpr fun entry inside => (ih entry inside).mpr fun text mem => ?_)
      exact same text (mem_flatMap.mpr ⟨entry, inside, mem⟩)

/-! ## Reading a value -/

/-- The value that is kept, unless one of its numbers is out of range. -/
def received (reader : NumberReader) (value : Json) : Option Json :=
  if value.numbers.all fun text => (reader.read text).isSome then
    some (value.mapNumbers fun text => (reader.read text).getD text)
  else none

/-- What is kept of a literal stands for the number that the literal stands for. -/
def Kept (reader : NumberReader) (text : Text) : Prop :=
  ∀ printed, reader.read text = some printed → literalValue text = literalValue printed

variable {reader : NumberReader} {held : Json}

theorem alike_received (read : value.received reader = some held) :
    Alike value held ↔ ∀ text ∈ value.numbers, Kept reader text := by
  obtain ⟨inRange, same⟩ := Option.ite_none_right_eq_some.mp read
  obtain rfl := Option.some.inj same
  rw [alike_mapNumbers]
  refine forall₂_congr fun text mem => ?_
  obtain ⟨printed, known⟩ := Option.isSome_iff_exists.mp (all_eq_true.mp inRange text mem)
  rw [known, Option.getD_some]
  constructor
  · intro same other again
    cases known.symm.trans again
    exact same
  · intro kept
    exact kept printed known

theorem received_number : (Json.number text).received reader = some held ↔
    ∃ printed, reader.read text = some printed ∧ held = .number printed := by
  unfold received
  cases known : reader.read text with
  | none => simp [numbers, known]
  | some printed => simp [numbers, mapNumbers, known, eq_comm]

/-- Only the numbers of a value are read. -/
theorem exists_mapNumbers (read : value.received reader = some held) : ∃ f, held = value.mapNumbers f := by
  obtain ⟨-, same⟩ := Option.ite_none_right_eq_some.mp read
  exact ⟨_, (Option.some.inj same).symm⟩

theorem number_of_received (read : value.received reader = some (.number printed)) :
    ∃ text, value = .number text ∧ reader.read text = some printed := by
  obtain ⟨f, same⟩ := exists_mapNumbers read
  cases value with
  | number text =>
    obtain ⟨other, known, same⟩ := received_number.mp read
    cases same
    exact ⟨text, rfl, known⟩
  | null | bool _ | str _ | arr _ | obj _ => cases same

theorem str_of_received {text : Text} (read : value.received reader = some (.str text)) : value = .str text := by
  obtain ⟨f, same⟩ := exists_mapNumbers read
  cases value with
  | str text =>
    cases same
    rfl
  | null | bool _ | number _ | arr _ | obj _ => cases same

theorem arr_of_received {items : List Json} (read : value.received reader = some (.arr items)) :
    ∃ written f, value = .arr written ∧ items = written.map (mapNumbers f) ∧
      ∀ item ∈ written, item.received reader = some (item.mapNumbers f) := by
  obtain ⟨f, same⟩ := exists_mapNumbers read
  cases value with
  | arr written =>
    obtain ⟨inRange, kept⟩ := Option.ite_none_right_eq_some.mp read
    rw [mapNumbers_arr, Option.some.injEq, Json.arr.injEq] at kept
    rw [numbers_arr, all_flatMap, all_eq_true] at inRange
    exact ⟨written, _, rfl, kept.symm, fun item mem => if_pos (inRange item mem)⟩
  | null | bool _ | number _ | str _ | obj _ => cases same

theorem literalValue_ofInt (int : Int) : literalValue (Text.ofInt int) = some (int : ℚ) := by
  rw [literalValue, Text.signedValue_ofInt]

theorem asI64_ofInt {int : Int} (low : -2 ^ 63 ≤ int) (high : int < 2 ^ 63) : (Json.number (Text.ofInt int)).asI64 = some int :=
  Text.parseI64_eq_some.mpr ⟨Text.signedValue_ofInt int, low, high⟩

/-- An integer of 64 bits is rounded to a double. -/
theorem finiteF64_ofInt {int : Int} (low : -2 ^ 63 ≤ int) (high : int < 2 ^ 64) :
    ∃ double, finiteF64 (Text.ofInt int) = some double ∧ binary64.nearest int = .finite double := by
  have small : |(int : ℚ)| < 2 ^ binary64.maxExponent := by
    have bounded : |int| ≤ 2 ^ 64 := abs_le.mpr ⟨by omega, by omega⟩
    calc |(int : ℚ)| ≤ 2 ^ 64 := by exact_mod_cast bounded
      _ = 2 ^ (64 : ℤ) := by norm_num
      _ < 2 ^ binary64.maxExponent := zpow_lt_zpow_right₀ (by norm_num) (by decide)
  obtain ⟨double, rounded⟩ := @BinaryFormat.exists_nearest binary64 _ (by decide) (by decide) small
  exact ⟨double, finiteF64_eq_some.mpr ⟨int, Text.decimalValue_of_signed (Text.signedValue_ofInt int), rounded⟩, rounded⟩

/-- An integer is kept as it is; another number is a double, for which its text stands. -/
theorem kept_cases (read : reader.read text = some printed) :
    (∃ int : Int, -2 ^ 63 ≤ int ∧ int < 2 ^ 64 ∧ text = Text.ofInt int ∧ printed = text) ∨
      (Text.signedValue printed = none ∧ ∃ double, finiteF64 printed = some double ∧ literalValue printed = some double) := by
  obtain ⟨int, low, high, rfl⟩ | ⟨unsigned, finite⟩ := reader.double text printed read
  · exact .inl ⟨int, low, high, rfl, Option.some.inj (read.symm.trans (reader.whole int low high))⟩
  · obtain ⟨double, known⟩ := Option.isSome_iff_exists.mp finite
    exact .inr ⟨unsigned, double, known, by rw [literalValue, unsigned]; exact known⟩

/-- The double of an integer of 64 bits is the nearest one. -/
theorem nearest_of_whole {int : Int} {double : ℚ} (known : reader.asF64 text = some double)
    (signed : Text.signedValue text = some int) (low : -2 ^ 63 ≤ int) (high : int < 2 ^ 64) :
    binary64.nearest int = .finite double := by
  obtain ⟨printed, read, finite⟩ := Option.bind_eq_some_iff.mp known
  obtain rfl | ⟨rfl, zero⟩ := reader.grammar text printed int read signed
  · cases (reader.whole int low high).symm.trans read
    obtain ⟨other, again, rounded⟩ := finiteF64_ofInt low high
    cases again.symm.trans finite
    exact rounded
  · cases zero.symm.trans finite
    exact BinaryFormat.nearest_of_represents (by exact_mod_cast BinaryFormat.represents_zero)

theorem numericItems_iff (items : List Json) : NumericItems items ↔ ∀ item ∈ items, item.Numeric := by
  induction items with
  | nil => simp [NumericItems]
  | cons item rest ih => rw [NumericItems, ih, forall_mem_cons]

theorem numericEntries_iff (entries : List (Text × Json)) : NumericEntries entries ↔ ∀ entry ∈ entries, entry.2.Numeric := by
  induction entries with
  | nil => simp [NumericEntries]
  | cons entry rest ih => rw [NumericEntries, ih, forall_mem_cons]

theorem numeric_mapNumbers {f : Text → Text} (each : ∀ text ∈ value.numbers, (Json.number (f text)).Numeric) :
    (value.mapNumbers f).Numeric := by
  induction value with
  | null | bool _ | str _ => trivial
  | number text => exact each text (mem_singleton.mpr rfl)
  | arr items ih =>
    rw [numbers_arr] at each
    rw [mapNumbers_arr]
    refine (numericItems_iff _).mpr fun item mem => ?_
    obtain ⟨item, inside, rfl⟩ := mem_map.mp mem
    exact ih item inside fun text mem => each text (mem_flatMap.mpr ⟨item, inside, mem⟩)
  | obj entries ih =>
    rw [numbers_obj] at each
    rw [mapNumbers_obj]
    refine (numericEntries_iff _).mpr fun entry mem => ?_
    obtain ⟨entry, inside, rfl⟩ := mem_map.mp mem
    exact ih entry inside fun text mem => each text (mem_flatMap.mpr ⟨entry, inside, mem⟩)

theorem numeric_received (read : value.received reader = some held) : held.Numeric := by
  obtain ⟨inRange, same⟩ := Option.ite_none_right_eq_some.mp read
  obtain rfl := Option.some.inj same
  refine numeric_mapNumbers fun text mem => ?_
  obtain ⟨printed, known⟩ := Option.isSome_iff_exists.mp (all_eq_true.mp inRange text mem)
  rw [known]
  exact reader.numeric text printed known

section Kinds

variable (f : Text → Text) (value : Json)

@[simp] theorem asStr_mapNumbers : (value.mapNumbers f).asStr = value.asStr := by cases value <;> rfl

@[simp] theorem asBool_mapNumbers : (value.mapNumbers f).asBool = value.asBool := by cases value <;> rfl

@[simp] theorem isNull_mapNumbers : (value.mapNumbers f).isNull = value.isNull := by cases value <;> rfl

end Kinds

end Json

end RootCx
