import RootCx.Rules.Compile

/-! # The names of unnamed indexes

`resolve_index_name` of `schema_sync.rs` makes a name from the columns of an index
and a hash over the columns, the uniqueness and the predicate.  It sees neither
the order nor the access method of an index, nor what its expressions are, so two
indexes that differ in these only have one name.
-/

namespace RootCx.Rules

open RootCx.Text RootCx.Postgres List

/-! ## What the name is made of -/

/-- The part of a column in the name. -/
def columnPart : IndexColumn → Text
  | .name name => name
  | .spec spec => spec.column.getD "expr"

def shownPredicate (printable : Char → Bool) : Option Text → Text
  | none => "None"
  | some source => "Some(" ++ debugText printable source ++ ")"

/-- The text that is hashed. -/
def shownIndex (printable : Char → Bool) (index : IndexContract) : Text :=
  "[" ++ join ", " ((index.columns.map columnPart).map (debugText printable)) ++ "]" ++
    (if index.unique then "true" else "false").toList ++ shownPredicate printable index.whereClause

def shownHash (shown : Text) : Nat :=
  ((utf8Bytes shown).foldl (fun (h : UInt64) b => h * 31 + b.toUInt64) 0 &&& 0xffffff).toNat

def nameBase (entity : Text) (index : IndexContract) : Text :=
  "ix_" ++ entity ++ "_" ++ join "_" (index.columns.map columnPart) ++
    (if index.unique then "_uq" else "").toList

def nameSuffix (printable : Char → Bool) (index : IndexContract) : Text :=
  "_" ++ Nat.toDigits 16 (shownHash (shownIndex printable index))

theorem resolveIndexName_unnamed {printable : Char → Bool} {entity : Text} {index : IndexContract}
    (unnamed : index.name = none) :
    resolveIndexName printable entity index =
      (nameBase entity index).take (63 - byteLength (nameSuffix printable index)) ++ nameSuffix printable index := by
  obtain ⟨name, columns, unique, method, predicate, params⟩ := index
  subst unnamed
  rfl

/-! ## The hashed text says what it shows -/

section Shown

variable {printable : Char → Bool}

def shownChar (printable : Char → Bool) (c : Char) : Text :=
  if c = '"' then ['\\', '"']
  else if c = '\\' then ['\\', '\\']
  else if c = '\n' then ['\\', 'n']
  else if c = '\r' then ['\\', 'r']
  else if c = '\t' then ['\\', 't']
  else if c = '\x00' then ['\\', '0']
  else if (isAscii c && decide (32 ≤ c.toNat) && c != '\x7f') || (!isAscii c && printable c) then [c]
  else "\\u\x7b" ++ Nat.toDigits 16 c.toNat ++ "\x7d"

theorem debugText_eq (text : Text) :
    debugText printable text = '"' :: text.flatMap (shownChar printable) ++ ['"'] := rfl

/-- The character at the front of a shown text. -/
def readShown : Text → Option (Char × Text)
  | '\\' :: '0' :: rest => some ('\x00', rest)
  | '\\' :: 't' :: rest => some ('\t', rest)
  | '\\' :: 'r' :: rest => some ('\r', rest)
  | '\\' :: 'n' :: rest => some ('\n', rest)
  | '\\' :: 'u' :: '\x7b' :: rest =>
    some (Char.ofNat (hexOf (rest.takeWhile fun c => c != '\x7d')), (rest.dropWhile fun c => c != '\x7d').tail)
  | '\\' :: c :: rest => some (c, rest)
  | c :: rest => some (c, rest)
  | [] => none

theorem readShown_shownChar (c : Char) (rest : Text) : readShown (shownChar printable c ++ rest) = some (c, rest) := by
  unfold shownChar
  split
  case isTrue quote => subst quote; rfl
  split
  case isTrue backslash => subst backslash; rfl
  split
  case isTrue newline => subst newline; rfl
  split
  case isTrue carriage => subst carriage; rfl
  split
  case isTrue tab => subst tab; rfl
  split
  case isTrue zero => subst zero; rfl
  split
  case isTrue =>
    rw [singleton_append]
    unfold readShown
    split <;> simp_all
  case isFalse =>
    have free : ∀ d ∈ Nat.toDigits 16 c.toNat, (d != '\x7d') = true := by
      intro d mem
      exact forall_mem_toDigits_hex (P := fun c => (c != '\x7d') = true) (by decide) c.toNat d mem
    show some (Char.ofNat (hexOf ((Nat.toDigits 16 c.toNat ++ "\x7d" ++ rest).takeWhile fun c => c != '\x7d')),
      ((Nat.toDigits 16 c.toNat ++ "\x7d" ++ rest).dropWhile fun c => c != '\x7d').tail) = _
    rw [append_assoc, takeWhile_append_of_stop free (by rfl), dropWhile_append_of_stop free (by rfl), hexOf_toDigits,
      Char.ofNat_toNat]
    rfl

theorem shownChar_ne_nil (c : Char) : shownChar printable c ≠ [] := by
  unfold shownChar
  repeat' split
  all_goals exact cons_ne_nil _ _

theorem shownChar_head (c : Char) : (shownChar printable c).head? ≠ some '"' := by
  unfold shownChar
  repeat' split
  all_goals simp_all

theorem debugText_unique {first second rest rest' : Text}
    (same : debugText printable first ++ rest = debugText printable second ++ rest') : first = second ∧ rest = rest' := by
  simp only [debugText_eq, cons_append, append_assoc, cons.injEq, true_and] at same
  exact coded_unique readShown_shownChar shownChar_ne_nil shownChar_head same

/-- A list of shown texts, up to its closing bracket. -/
theorem shownList_unique {first second : List Text} {rest rest' : Text}
    (same : join ", ".toList (first.map (debugText printable)) ++ ']' :: rest =
      join ", ".toList (second.map (debugText printable)) ++ ']' :: rest') : first = second ∧ rest = rest' := by
  have behind : ∀ {first second : List Text} {rest rest' : Text},
      (first.map (debugText printable)).flatMap (", ".toList ++ ·) ++ ']' :: rest =
        (second.map (debugText printable)).flatMap (", ".toList ++ ·) ++ ']' :: rest' → first = second ∧ rest = rest' := by
    intro first
    induction first with
    | nil =>
      intro second rest rest' same
      cases second with
      | nil => exact ⟨rfl, (cons.inj same).2⟩
      | cons text second => exact absurd (cons.inj same).1 (by decide)
    | cons text first ih =>
      intro second rest rest' same
      cases second with
      | nil => exact absurd (cons.inj same).1 (by decide)
      | cons text' second =>
        rw [map_cons, map_cons, flatMap_cons, flatMap_cons, append_assoc, append_assoc,
          append_assoc, append_assoc] at same
        obtain ⟨rfl, others⟩ := debugText_unique (append_cancel_left same)
        obtain ⟨rfl, rfl⟩ := ih others
        exact ⟨rfl, rfl⟩
  cases first with
  | nil =>
    cases second with
    | nil => exact ⟨rfl, (cons.inj same).2⟩
    | cons text second =>
      rw [map_cons, join_cons] at same
      exact absurd (cons.inj same).1 (by decide)
  | cons text first =>
    cases second with
    | nil =>
      rw [map_cons, join_cons] at same
      exact absurd (cons.inj same).1 (by decide)
    | cons text' second =>
      rw [map_cons, map_cons, join_cons, join_cons, append_assoc, append_assoc] at same
      obtain ⟨rfl, others⟩ := debugText_unique same
      obtain ⟨rfl, rfl⟩ := behind others
      exact ⟨rfl, rfl⟩

theorem shownPredicate_injective {first second : Option Text}
    (same : shownPredicate printable first = shownPredicate printable second) : first = second := by
  cases first with
  | none =>
    cases second with
    | none => rfl
    | some source => exact absurd (cons.inj same).1 (by decide)
  | some source =>
    cases second with
    | none => exact absurd (cons.inj same).1 (by decide)
    | some source' =>
      have spelled : "Some(" ++ debugText printable source ++ ")" =
          "Some(" ++ debugText printable source' ++ ")" := same
      rw [append_assoc, append_assoc] at spelled
      rw [(debugText_unique (append_cancel_left spelled)).1]

theorem shownIndex_eq_iff {first second : IndexContract} :
    shownIndex printable first = shownIndex printable second ↔
      first.columns.map columnPart = second.columns.map columnPart ∧ first.unique = second.unique ∧
        first.whereClause = second.whereClause := by
  constructor
  · intro same
    unfold shownIndex at same
    rw [append_assoc, append_assoc, append_assoc, append_assoc, append_assoc, append_assoc] at same
    obtain ⟨columns, behind⟩ := shownList_unique (append_cancel_left same)
    refine ⟨columns, ?_⟩
    cases unique : first.unique <;> cases unique' : second.unique <;> rw [unique, unique'] at behind
    · exact ⟨rfl, shownPredicate_injective (append_cancel_left behind)⟩
    · exact absurd (cons.inj behind).1 (by decide)
    · exact absurd (cons.inj behind).1 (by decide)
    · exact ⟨rfl, shownPredicate_injective (append_cancel_left behind)⟩
  · intro ⟨columns, unique, predicate⟩
    unfold shownIndex
    rw [columns, unique, predicate]

end Shown

/-! ## Names -/

theorem nameSuffix_of_name {printable : Char → Bool} {entity : Text} {first second : IndexContract}
    (unnamed : first.name = none) (unnamed' : second.name = none)
    (same : resolveIndexName printable entity first = resolveIndexName printable entity second) :
    shownHash (shownIndex printable first) = shownHash (shownIndex printable second) := by
  rw [resolveIndexName_unnamed unnamed, resolveIndexName_unnamed unnamed'] at same
  -- the last underscore of a name starts its hash
  have turned := congrArg reverse same
  rw [reverse_append, reverse_append] at turned
  unfold nameSuffix at turned
  rw [reverse_append, reverse_append, append_assoc, append_assoc] at turned
  have free (n : Nat) : '_' ∉ (Nat.toDigits 16 n).reverse :=
    fun mem => forall_mem_toDigits_hex (P := (· ≠ '_')) (by decide) n '_' (mem_reverse.mp mem) rfl
  have digits := reverse_injective (upTo_unique (free _) (free _) turned).1
  rw [← hexOf_toDigits (shownHash (shownIndex printable first)), digits, hexOf_toDigits]

theorem isAscii_of_validateIdent {text label : Text} (valid : validateIdent text label = .ok ()) :
    ∀ c ∈ text, isAscii c = true := by
  unfold validateIdent at valid
  split at valid
  case isTrue accepted =>
    simp only [Bool.and_eq_true, all_eq_true] at accepted
    intro c mem
    have classes := accepted.2 c mem
    simp only [Bool.or_eq_true, isAsciiLower, Bool.and_eq_true, decide_eq_true_eq, beq_iff_eq] at classes
    obtain (⟨-, high⟩ | digit) | rfl := classes
    · have small : c.toNat ≤ 'z'.toNat := high
      exact decide_eq_true (Nat.lt_of_le_of_lt small (by decide))
    · simp only [Char.isDigit, Bool.and_eq_true, decide_eq_true_eq] at digit
      have small : c.toNat ≤ '9'.toNat := digit.2
      exact decide_eq_true (Nat.lt_of_le_of_lt small (by decide))
    · rfl
  case isFalse => cases valid

section Length

variable {printable : Char → Bool} {entity label : Text} {index : IndexContract}

theorem isAscii_nameBase (named : validateIdent entity label = .ok ())
    (columns : ∀ column ∈ index.columns, validateIdent (columnPart column) label = .ok ()) :
    ∀ c ∈ nameBase entity index, isAscii c = true := by
  intro c mem
  unfold nameBase at mem
  rw [mem_append, mem_append, mem_append, mem_append] at mem
  obtain (((front | inside) | under) | part) | mark := mem
  · exact forall_mem_of_all (P := (isAscii · = true)) (by decide) c front
  · exact isAscii_of_validateIdent named c inside
  · exact forall_mem_of_all (P := (isAscii · = true)) (by decide) c under
  · obtain between | ⟨text, listed, inside⟩ := mem_join part
    · exact forall_mem_of_all (P := (isAscii · = true)) (by decide) c between
    · obtain ⟨column, declared, rfl⟩ := mem_map.mp listed
      exact isAscii_of_validateIdent (columns column declared) c inside
  · revert mark
    split
    · exact forall_mem_of_all (P := (isAscii · = true)) (by decide) c
    · exact fun inside => absurd inside not_mem_nil

theorem isAscii_nameSuffix : ∀ c ∈ nameSuffix printable index, isAscii c = true := by
  intro c mem
  obtain under | digit := mem_append.mp mem
  · exact forall_mem_of_all (P := (isAscii · = true)) (by decide) c under
  · exact forall_mem_toDigits_hex (P := (isAscii · = true)) (by decide) _ c digit

theorem nameSuffix_length : (nameSuffix printable index).length ≤ 7 := by
  have small : shownHash (shownIndex printable index) < 16 ^ 6 := by
    unfold shownHash
    exact Nat.lt_of_le_of_lt (UInt64.toNat_and _ _ ▸ Nat.and_le_right) (by decide)
  have digits := (Nat.length_toDigits_le_iff (by decide) (by decide)).mpr small
  rw [nameSuffix, length_append]
  exact Nat.add_le_add_left digits 1

theorem resolveIndexName_fits (unnamed : index.name = none) (named : validateIdent entity label = .ok ())
    (columns : ∀ column ∈ index.columns, validateIdent (columnPart column) label = .ok ()) :
    byteLength (resolveIndexName printable entity index) ≤ MAX_IDENT_BYTES := by
  have suffix : byteLength (nameSuffix printable index) = (nameSuffix printable index).length :=
    byteLength_of_isAscii isAscii_nameSuffix
  have short : (nameSuffix printable index).length ≤ 7 := nameSuffix_length
  rw [resolveIndexName_unnamed unnamed, byteLength_of_isAscii, length_append, length_take, suffix, MAX_IDENT_BYTES]
  · omega
  · intro c mem
    obtain front | behind := mem_append.mp mem
    · exact isAscii_nameBase named columns c (mem_of_mem_take front)
    · exact isAscii_nameSuffix c behind

end Length

theorem resolveIndexName_congr {printable : Char → Bool} {entity : Text} {first second : IndexContract}
    (unnamed : first.name = none) (unnamed' : second.name = none)
    (parts : first.columns.map columnPart = second.columns.map columnPart) (unique : first.unique = second.unique)
    (predicate : first.whereClause = second.whereClause) :
    resolveIndexName printable entity first = resolveIndexName printable entity second := by
  have shown : shownIndex printable first = shownIndex printable second := shownIndex_eq_iff.mpr ⟨parts, unique, predicate⟩
  have suffix : nameSuffix printable first = nameSuffix printable second :=
    congrArg (fun shown => "_" ++ Nat.toDigits 16 (shownHash shown)) shown
  have base : nameBase entity first = nameBase entity second := by
    unfold nameBase
    rw [parts, unique]
  rw [resolveIndexName_unnamed unnamed, resolveIndexName_unnamed unnamed', base, suffix]

/-- With no collision of the hash, two unnamed indexes of an entity have different
    names exactly when they differ in their columns, where every expression counts
    as a column `expr`, in their uniqueness or in the text of their predicate. -/
theorem resolveIndexName_apart_iff {printable : Char → Bool} {entity label : Text} {first second : IndexContract}
    (unnamed : first.name = none) (unnamed' : second.name = none) (named : validateIdent entity label = .ok ())
    (columns : ∀ column ∈ first.columns ++ second.columns, validateIdent (columnPart column) label = .ok ())
    (injective : shownHash (shownIndex printable first) = shownHash (shownIndex printable second) →
      shownIndex printable first = shownIndex printable second) :
    (resolveIndexName printable entity first ≠ resolveIndexName printable entity second ↔
      first.columns.map columnPart ≠ second.columns.map columnPart ∨ first.unique ≠ second.unique ∨
        first.whereClause ≠ second.whereClause) ∧
      byteLength (resolveIndexName printable entity first) ≤ MAX_IDENT_BYTES ∧
      byteLength (resolveIndexName printable entity second) ≤ MAX_IDENT_BYTES := by
  refine ⟨?_, resolveIndexName_fits unnamed named fun column member => columns column (by simp [member]),
    resolveIndexName_fits unnamed' named fun column member => columns column (by simp [member])⟩
  have equal : resolveIndexName printable entity first = resolveIndexName printable entity second ↔
      first.columns.map columnPart = second.columns.map columnPart ∧ first.unique = second.unique ∧
        first.whereClause = second.whereClause := by
    constructor
    · exact fun same => shownIndex_eq_iff.mp (injective (nameSuffix_of_name unnamed unnamed' same))
    · exact fun ⟨parts, unique, predicate⟩ => resolveIndexName_congr unnamed unnamed' parts unique predicate
  rw [ne_eq, equal, not_and_or, not_and_or]

/-- An index of `person` on its name. -/
def byName (columns : List IndexColumn) : IndexContract := { columns }

theorem byName_apart :
    resolveIndexName (fun _ => true) "person".toList (byName [.name "name".toList]) ≠
      resolveIndexName (fun _ => true) "person".toList (byName [.name "name".toList, .name "age".toList]) := by
  have different : shownHash (shownIndex (fun _ => true) (byName [.name "name".toList])) ≠
      shownHash (shownIndex (fun _ => true) (byName [.name "name".toList, .name "age".toList])) := by decide +kernel
  have columns : ∀ column ∈ (byName [.name "name".toList]).columns ++ (byName [.name "name".toList, .name "age".toList]).columns,
      validateIdent (columnPart column) [] = .ok () := by decide
  have apart := @resolveIndexName_apart_iff (fun _ => true) "person".toList [] (byName [.name "name".toList])
    (byName [.name "name".toList, .name "age".toList]) rfl rfl (by decide) columns fun same => absurd same different
  exact apart.1.mpr (.inl (by decide))

def descending : IndexContract := byName [.spec { column := some "name", sort := some "desc" }]

def onExpression (expr : Text) : IndexContract := byName [.spec { expr := some expr }]

theorem onExpression_same (printable : Char → Bool) (entity expr other : Text) :
    resolveIndexName printable entity (onExpression expr) = resolveIndexName printable entity (onExpression other) :=
  resolveIndexName_congr rfl rfl rfl rfl rfl

/-- An ascending and a descending index have one name, and so have the indexes of two
    expressions. -/
theorem byName_collides :
    (byName [.name "name".toList] ≠ descending ∧ ∀ printable entity,
      resolveIndexName printable entity (byName [.name "name".toList]) = resolveIndexName printable entity descending) ∧
    onExpression "lower(name)".toList ≠ onExpression "upper(name)".toList ∧ ∀ printable entity,
      resolveIndexName printable entity (onExpression "lower(name)".toList) =
        resolveIndexName printable entity (onExpression "upper(name)".toList) := by
  refine ⟨⟨by decide, fun printable entity => ?_⟩, by decide, fun printable entity => ?_⟩
  · exact @resolveIndexName_congr printable entity (byName [.name "name".toList]) descending rfl rfl rfl rfl rfl
  · exact onExpression_same printable entity _ _

end RootCx.Rules
