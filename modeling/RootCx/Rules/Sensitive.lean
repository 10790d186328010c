import RootCx.Rules.Sources

/-! # Rules and sensitive fields

A constraint reveals something about the values it reads, through what it
accepts.  So a check that reads a sensitive field reads nothing else, and neither
the predicate nor an expression of an index reads one.  `Source.Guarded` says
this of the trees behind a compiled object; here it is said in terms of the
entity.  The plain columns of an index are outside the rule: a unique index on a
sensitive column remains possible.
-/

namespace RootCx.Rules

open RootCx.Text

/-- The last declaration of a name counts; a manifest with two is refused before
    its rules are compiled. -/
def declaredSensitive (entity : EntityContract) (name : Text) : Bool :=
  (entity.fields.reverse.find? fun field => name == field.name).any FieldContract.sensitive

theorem declaredTypes_sensitive {parseDecimal : Text → Option Text} {list : List FieldContract} {declared : Fields}
    (ok : declaredTypes parseDecimal list = .ok declared) (name : Text) :
    (declared name).map ScopeField.sensitive =
      (list.reverse.find? fun field => name == field.name).map FieldContract.sensitive := by
  induction list generalizing declared with
  | nil =>
    cases ok
    rfl
  | cons field list ih =>
    obtain ⟨ty, -, ok⟩ := bind_eq_ok.mp ok
    obtain ⟨others, othersOk, ok⟩ := bind_eq_ok.mp ok
    cases ok
    rw [List.reverse_cons, List.find?_append, Option.map_or, Option.map_or, ih othersOk]
    -- the field at hand is found behind all the others
    by_cases same : name = field.name <;> simp [same, scopeField]

theorem isSensitive_scope {parseDecimal : Text → Option Text} {entity : EntityContract} {fields : Fields}
    (ok : fieldTypes parseDecimal entity = .ok fields) (name : Text) :
    isSensitive fields name = declaredSensitive entity name := by
  obtain ⟨declared, declaredOk, ok⟩ := bind_eq_ok.mp ok
  cases ok
  have same := declaredTypes_sensitive declaredOk name
  rw [isSensitive, declaredSensitive]
  cases found : declared name with
  | none =>
    rw [found, Option.map_none] at same
    rw [Option.map_eq_none_iff.mp same.symm]
    cases implicitType name <;> rfl
  | some field =>
    rw [found, Option.map_some] at same
    obtain ⟨declaration, inside, sensitive⟩ := Option.map_eq_some_iff.mp same.symm
    rw [inside, Option.some_or, Option.any_some, Option.any_some, sensitive]

variable {crates : Crates}

/-- The compiled checks and indexes of an entity, with the trees they come from:
    a check on a sensitive field reads it alone, and the expressions and predicates
    of indexes read no sensitive field.  The collection the compiler decides by
    holds every name that occurs in a tree, once. -/
theorem sensitive_rules {entity : EntityContract} {rules : EntityRules}
    (compiled : compileEntity crates entity = .ok rules) :
    (∃ fields, fieldTypes crates.parseDecimal entity = .ok fields ∧
      (∀ name, isSensitive fields name = declaredSensitive entity name) ∧
      ∀ object ∈ rules.objects, ∃ source : Source, object.From crates.digest8 fields source ∧
        source.Guarded fields) ∧
    ∀ tree : Expr, (tree.fields []).Nodup ∧ ∀ name, name ∈ tree.fields [] ↔ name ∈ tree.names := by
  obtain ⟨fields, scope⟩ := compileEntity_scope compiled
  refine ⟨⟨fields, scope, isSensitive_scope scope, fun object member => ?_⟩, fun tree => ?_⟩
  · obtain ⟨source, origin, sound⟩ := compileEntity_sound scope compiled object member
    exact ⟨source, origin, sound.guarded⟩
  · exact ⟨fields_nodup List.nodup_nil, fun name => by simp [mem_fields]⟩

/-- An entity with a unique index on a sensitive column and a check on it. -/
def vault : EntityContract where
  entityName := "vault"
  fields := [{ name := "secret", fieldType := "text", sensitive := true }]
  checks := [{ name := some "long", expr := "length(secret) > 8" }]
  indexes := [{ name := some "uq", columns := [.name "secret"], unique := true }]

def vaultRules : EntityRules :=
  match compileEntity sampleCrates vault with
  | .ok rules => rules
  | .error _ => ⟨[], []⟩

theorem vault_compiled : compileEntity sampleCrates vault = .ok vaultRules := by
  decide +kernel

theorem sensitive_rules_vault :
    ∃ rules, compileEntity sampleCrates vault = .ok rules ∧ rules.objects.length = 2 ∧
      (∃ fields, fieldTypes sampleCrates.parseDecimal vault = .ok fields ∧
        (∀ name, isSensitive fields name = declaredSensitive vault name) ∧
        ∀ object ∈ rules.objects, ∃ source : Source, object.From sampleCrates.digest8 fields source ∧
          source.Guarded fields) ∧
      ∀ tree : Expr, (tree.fields []).Nodup ∧ ∀ name, name ∈ tree.fields [] ↔ name ∈ tree.names :=
  ⟨vaultRules, vault_compiled, by decide +kernel, sensitive_rules vault_compiled⟩

/-- A plain index column may be a sensitive field. -/
theorem sensitive_index_column :
    ∃ rules, compileEntity sampleCrates vault = .ok rules ∧
      ∃ index ∈ rules.indexes, index.keyValues = [Postgres.quoteIdent "secret".toList] ∧
        declaredSensitive vault "secret".toList = true := by
  have keys : vaultRules.indexes.map CompiledIndex.keyValues = [[Postgres.quoteIdent "secret".toList]] := by
    decide +kernel
  obtain ⟨index, alone, value⟩ := List.map_eq_singleton_iff.mp keys
  exact ⟨vaultRules, vault_compiled, index, by simp [alone], value, by decide⟩

end RootCx.Rules
