import RootCx.Rules.Compile

/-! # What a compiled rule is made of

A compiled check or index holds texts.  Here it is traced back to the trees and
columns it was compiled from, so that one can speak of the fields it reads.
-/

namespace RootCx.Rules

open RootCx.Text RootCx.Postgres

/-! ## Fields of a tree -/

mutual

/-- Every occurrence of a field. -/
def Expr.names : Expr → List Text
  | .field name | .arrayWithin name _ => [name]
  | .text _ | .number _ | .bool _ | .typed _ _ | .interval _ _ => []
  | .not e | .neg e | .isNull e _ | .finite e _ => e.names
  | .binary _ l r => l.names ++ r.names
  | .between e lo hi _ => e.names ++ lo.names ++ hi.names
  | .inList e list _ => e.names ++ namesAll list
  | .call _ args => namesAll args

def namesAll : List Expr → List Text
  | [] => []
  | e :: rest => e.names ++ namesAll rest

end

theorem mem_fields {e : Expr} : ∀ {out : List Text} {name : Text}, name ∈ e.fields out ↔ name ∈ out ∨ name ∈ e.names := by
  have found {out : List Text} {name field : Text} :
      name ∈ (if field ∈ out then out else out ++ [field]) ↔ name ∈ out ∨ name ∈ [field] := by
    by_cases mem : field ∈ out
    · rw [if_pos mem, List.mem_singleton]
      exact ⟨.inl, fun either => either.elim id fun same => same ▸ mem⟩
    · rw [if_neg mem, List.mem_append]
  have lists {list : List Expr}
      (members : ∀ e ∈ list, ∀ {out : List Text} {name : Text}, name ∈ e.fields out ↔ name ∈ out ∨ name ∈ e.names) :
      ∀ {out : List Text} {name : Text}, name ∈ fieldsAll out list ↔ name ∈ out ∨ name ∈ namesAll list := by
    induction list with
    | nil => intro out name; simp [fieldsAll, namesAll]
    | cons e rest ih =>
      intro out name
      rw [fieldsAll, namesAll, ih fun e mem => members e (by simp [mem]),
        members e (by simp), List.mem_append, or_assoc]
  induction e with
  | field name => exact found
  | text value | number value | bool value | typed ty value | interval amount unit =>
    intro out name; simp [Expr.fields, Expr.names]
  | not e ih | neg e ih | isNull e negated ih
  | finite e numeric ih => exact ih
  | binary op l r left right =>
    intro out name
    rw [Expr.fields, Expr.names, right, left, List.mem_append, or_assoc]
  | between e lo hi negated tested low high =>
    intro out name
    rw [Expr.fields, Expr.names, high, low, tested, List.mem_append, List.mem_append, or_assoc, or_assoc, or_assoc]
  | inList e list negated tested members =>
    intro out name
    rw [Expr.fields, Expr.names, lists members, tested, List.mem_append, or_assoc]
  | call func args members => exact lists members
  | arrayWithin field values => exact found

/-- No field is collected twice. -/
theorem fields_nodup {e : Expr} : ∀ {out : List Text}, out.Nodup → (e.fields out).Nodup := by
  have found {out : List Text} {field : Text} (apart : out.Nodup) :
      (if field ∈ out then out else out ++ [field]).Nodup := by
    by_cases mem : field ∈ out
    · rwa [if_pos mem]
    · rw [if_neg mem]
      exact apart.append (List.nodup_singleton field) (by simpa using mem)
  have lists {list : List Expr} (members : ∀ e ∈ list, ∀ {out : List Text}, out.Nodup → (e.fields out).Nodup) :
      ∀ {out : List Text}, out.Nodup → (fieldsAll out list).Nodup := by
    induction list with
    | nil => exact id
    | cons e rest ih =>
      exact fun apart => ih (fun e mem => members e (by simp [mem])) (members e (by simp) apart)
  induction e with
  | field name => exact found
  | text value | number value | bool value | typed ty value | interval amount unit => exact id
  | not e ih | neg e ih | isNull e negated ih
  | finite e numeric ih => exact ih
  | binary op l r left right => exact fun apart => right (left apart)
  | between e lo hi negated tested low high => exact fun apart => high (low (tested apart))
  | inList e list negated tested members => exact fun apart => lists members (tested apart)
  | call func args members => exact lists members
  | arrayWithin field values => exact found

/-! ## Sources -/

/-- The column of an index: a plain one or an expression. -/
inductive KeyTree where
  | name (name : Text)
  | expr (tree : Expr)

structure KeySource where
  tree : KeyTree
  -- in lower case
  sort : Option Text
  nulls : Option Text

inductive Source where
  | check (tree : Expr)
  | index (unique : Bool) (using_ : Text) (keys : List KeySource) (predicate : Option Expr)

def KeyTree.value : KeyTree → Text
  | .name column => quoteIdent column
  | .expr tree => "(".toList ++ sql tree ++ ")".toList

def KeyTree.json : KeyTree → Json
  | .name column => .str column
  | .expr tree => tree.json

def KeyTree.plain : KeyTree → List Text
  | .name column => [column]
  | .expr _ => []

def KeyTree.computed : KeyTree → List Text
  | .name _ => []
  | .expr tree => tree.names

def sortText (sort : Option Text) : Text :=
  if sort = some "asc".toList then " ASC".toList else if sort = some "desc".toList then " DESC".toList else []

def nullsText (nulls : Option Text) : Text :=
  if nulls = some "first".toList then " NULLS FIRST".toList
  else if nulls = some "last".toList then " NULLS LAST".toList else []

def textJson : Option Text → Json
  | none => .null
  | some text => .str text

def KeySource.key (key : KeySource) : Text := key.tree.value ++ sortText key.sort ++ nullsText key.nulls

def KeySource.json (key : KeySource) : Json := .arr [key.tree.json, textJson key.sort, textJson key.nulls]

/-- The fields an index reads as plain columns, inside expressions and in its
    predicate. -/
def plainOf (keys : List KeySource) : List Text := keys.flatMap fun key => key.tree.plain

def computedOf (keys : List KeySource) : List Text := keys.flatMap fun key => key.tree.computed

def predicateNames (predicate : Option Expr) : List Text := (predicate.map Expr.names).getD []

def Source.reads : Source → List Text
  | .check tree => tree.names
  | .index _ _ keys predicate => plainOf keys ++ computedOf keys ++ predicateNames predicate

/-- The fields that only the expressions of an index read. -/
def Source.expressionOnly : Source → List Text
  | .check _ => []
  | .index _ _ keys predicate =>
    (computedOf keys).filter fun name => name ∉ plainOf keys && name ∉ predicateNames predicate

/-- A compiled check or index. -/
inductive Compiled where
  | check (check : CompiledCheck)
  | index (index : CompiledIndex)

def Compiled.tag : Compiled → Text
  | .check object => object.tag
  | .index object => object.tag

def EntityRules.objects (rules : EntityRules) : List Compiled :=
  rules.checks.map .check ++ rules.indexes.map .index

/-- The names the types of an index's tag are taken of. -/
def taggedNames (keys : List KeySource) (predicate : Option Expr) : List Text :=
  dedup (sortNames (plainOf keys ++ ((predicate.map (Expr.fields [])).getD [])))

/-- The object is the compilation of the source in the scope. -/
def Compiled.From (digest8 : Text → Text) (fields : Fields) : Compiled → Source → Prop
  | .check object, .check tree =>
    object.sql = sql tree ∧ object.tag = RootCx.Rules.tag digest8 "chk".toList tree fields
  | .index object, .index unique using_ keys predicate =>
    object.unique = unique ∧ object.trigram = decide (using_ = "trigram".toList) ∧
      indexMethod using_ = .ok object.method ∧ object.keys = keys.map KeySource.key ∧
      object.keyValues = keys.map (fun key => key.tree.value) ∧ object.predicate = predicate.map sql ∧
      object.columns = (if object.trigram then plainOf keys else []) ∧
      object.tag = digestTag digest8 (.arr [.str GRAMMAR_VERSION, .str "idx".toList, .bool unique, .str using_,
        .arr (keys.map KeySource.json), (predicate.map Expr.json).getD .null,
        typesJson fields ((taggedNames keys predicate).filter fun name => (fields name).isSome)])
  | _, _ => False

/-- Everything the source reads is in the scope. -/
def Source.Scoped (fields : Fields) (source : Source) : Prop := ∀ name ∈ source.reads, (fields name).isSome = true

def isSensitive (fields : Fields) (name : Text) : Bool := (fields name).any ScopeField.sensitive

/-- A check on a sensitive field reads it alone; expressions and predicates of
    indexes read no sensitive field.  The plain columns of an index are free. -/
def Source.Guarded (fields : Fields) : Source → Prop
  | .check tree => ∀ name ∈ tree.names, isSensitive fields name = true → ∀ other ∈ tree.names, other = name
  | .index _ _ keys predicate => ∀ name ∈ computedOf keys ++ predicateNames predicate, isSensitive fields name = false

structure Source.Sound (fields : Fields) (source : Source) : Prop where
  inScope : source.Scoped fields
  guarded : source.Guarded fields

/-! ## Resolved trees stay in the scope -/

mutual

/-- A tree as it is written: none of the tests on arrays that Core makes. -/
def Written : Expr → Prop
  | .arrayWithin _ _ => False
  | .field _ | .text _ | .number _ | .bool _ | .typed _ _ | .interval _ _ => True
  | .not e | .neg e | .isNull e _ | .finite e _ => Written e
  | .binary _ l r => Written l ∧ Written r
  | .between e lo hi _ => Written e ∧ Written lo ∧ Written hi
  | .inList e list _ => Written e ∧ WrittenAll list
  | .call _ args => WrittenAll args

def WrittenAll : List Expr → Prop
  | [] => True
  | e :: rest => Written e ∧ WrittenAll rest

end

theorem writtenAll_append {list : List Expr} {e : Expr} (others : WrittenAll list) (last : Written e) :
    WrittenAll (list ++ [e]) := by
  induction list with
  | nil => exact ⟨last, trivial⟩
  | cons first list ih => exact ⟨others.1, ih others.2⟩

/-- What the parser builds is written. -/
def Parser.Phrase.Written : Parser.Phrase → Prop
  | .expr _ e => Rules.Written e
  | .list _ es => WrittenAll es

theorem written_of_derives {phrase : Parser.Phrase} {ts : List Parser.Tok} {nesting : Nat}
    (derives : Parser.Derives phrase ts nesting) : phrase.Written := by
  induction derives with
  | climb next below ih => exact ih
  | binary rule first second left right => exact ⟨left, right⟩
  | not operand ih => exact ih
  | isNull operand ih => exact ih
  | between value low high first second third => exact ⟨first, second, third⟩
  | inList value items first second => exact ⟨first, second⟩
  | neg operand ih => exact ih
  | number value => trivial
  | text value => trivial
  | isTrue => trivial
  | isFalse => trivial
  | interval written => trivial
  | paren inside ih => exact ih
  | call known arity inside ih => exact ih
  | field lower => trivial
  | one item ih => exact ⟨ih, trivial⟩
  | more items item first second => exact writtenAll_append first second

section Scope

variable {literals : Literals} {fields : Fields}

def InScope (fields : Fields) (names : List Text) : Prop := ∀ name ∈ names, (fields name).isSome = true

theorem InScope.append {front rest : List Text} (left : InScope fields front) (right : InScope fields rest) :
    InScope fields (front ++ rest) := by
  intro name mem
  obtain inFront | inRest := List.mem_append.mp mem
  · exact left name inFront
  · exact right name inRest

theorem typedLiteral_names {ty : Ty} {value : Text} {e : Expr} (ok : typedLiteral literals ty value = .ok e) :
    e.names = [] := by
  unfold typedLiteral at ok
  split at ok
  case h_1 =>
    split at ok
    · cases ok; rfl
    · cases ok
  case h_2 =>
    split at ok
    · cases ok; rfl
    · cases ok
  case h_3 =>
    split at ok
    · cases ok; rfl
    · cases ok
  case h_4 => cases ok

theorem unify_names {ty : Ty} {what : Text} {side result : Expr × Ty}
    (ok : unify literals ty what side = .ok result) (known : InScope fields side.1.names) :
    InScope fields result.1.names := by
  obtain ⟨kept, adopted, ok⟩ := bind_eq_ok.mp ok
  obtain ⟨_, -, ok⟩ := bind_eq_ok.mp ok
  cases ok
  unfold adopt at adopted
  split at adopted
  case h_1 value =>
    split at adopted
    case isTrue =>
      cases literal : typedLiteral literals ty value with
      | error message => rw [literal] at adopted; cases adopted
      | ok e =>
        rw [literal] at adopted
        cases adopted
        rw [typedLiteral_names literal]
        exact fun _ mem => nomatch mem
    case isFalse => cases adopted; exact known
  case h_2 => cases adopted; exact known

theorem compareSides_names {op : BinOp} {left right result : Expr × Ty}
    (ok : compareSides literals op left right = .ok result) (leftScoped : InScope fields left.1.names)
    (rightScoped : InScope fields right.1.names) : InScope fields result.1.names := by
  obtain ⟨sides, chosen, ok⟩ := bind_eq_ok.mp ok
  obtain ⟨_, -, ok⟩ := bind_eq_ok.mp ok
  obtain ⟨_, -, ok⟩ := bind_eq_ok.mp ok
  cases ok
  unfold unifySides at chosen
  split at chosen
  case isTrue =>
    cases unified : unify literals right.2 op.sql left with
    | error message => rw [unified] at chosen; cases chosen
    | ok side =>
      rw [unified] at chosen
      cases chosen
      exact (unify_names unified leftScoped).append rightScoped
  case isFalse =>
    cases unified : unify literals left.2 op.sql right with
    | error message => rw [unified] at chosen; cases chosen
    | ok side =>
      rw [unified] at chosen
      cases chosen
      exact leftScoped.append (unify_names unified rightScoped)

theorem binary_names {op : BinOp} {left result : Expr × Ty} {r : Expr} {right : Except Text (Expr × Ty)}
    (ok : binary literals op left r right = .ok result) (leftScoped : InScope fields left.1.names)
    (rightScoped : ∀ side, right = .ok side → InScope fields side.1.names) : InScope fields result.1.names := by
  cases op with
  | and | or =>
    obtain ⟨side, checked, ok⟩ := bind_eq_ok.mp ok
    obtain ⟨_, -, ok⟩ := bind_eq_ok.mp ok
    cases ok
    exact leftScoped.append (rightScoped side checked)
  | eq | ne | lt | le | gt | ge =>
    obtain ⟨side, checked, ok⟩ := bind_eq_ok.mp ok
    exact compareSides_names ok leftScoped (rightScoped side checked)
  | «match» =>
    obtain ⟨_, -, ok⟩ := bind_eq_ok.mp ok
    cases r with
    | text value =>
      obtain ⟨_, -, ok⟩ := bind_eq_ok.mp ok
      cases ok
      exact leftScoped.append fun _ mem => nomatch mem
    | _ => cases ok
  | add | sub | mul =>
    obtain ⟨side, checked, ok⟩ := bind_eq_ok.mp ok
    obtain ⟨ty, -, ok⟩ := bind_eq_ok.mp ok
    cases ok
    exact leftScoped.append (rightScoped side checked)

theorem call_names {func : Func} {args : List (Expr × Ty)} {result : Expr × Ty}
    (ok : call literals func args = .ok result) (known : ∀ arg ∈ args, InScope fields arg.1.names) :
    InScope fields result.1.names := by
  unfold call at ok
  split at ok
  case h_1 first second =>
    obtain ⟨_, -, ok⟩ := bind_eq_ok.mp ok
    obtain ⟨fallback, unified, ok⟩ := bind_eq_ok.mp ok
    cases ok
    have others := unify_names unified (known second (by simp))
    exact (known first (by simp)).append (others.append fun _ mem => nomatch mem)
  case h_2 arg =>
    obtain ⟨ty, -, ok⟩ := bind_eq_ok.mp ok
    cases ok
    exact (known arg (by simp)).append fun _ mem => nomatch mem
  case h_3 => cases ok

/-- Resolution adds no field: what the tree reads of `fields` before, it reads
    after.  The scope in which this is said is any other one. -/
theorem check_within {scope : Fields} {e : Expr} (written : Written e)
    (known : ∀ name ∈ e.names, (fields name).isSome = true → (scope name).isSome = true)
    {result : Expr × Ty} (ok : check literals fields e = .ok result) : InScope scope result.1.names := by
  induction e generalizing result with
  | field name =>
    rw [check] at ok
    split at ok
    case h_1 field found =>
      cases ok
      intro other mem
      obtain rfl := List.mem_singleton.mp mem
      exact known other mem (by rw [found]; rfl)
    case h_2 => cases ok
  | text value | number value | bool value | interval amount unit | typed ty value =>
    simp only [check] at ok
    cases ok
    exact fun _ mem => nomatch mem
  | not e ih | neg e ih =>
    rw [check] at ok
    obtain ⟨inner, checked, ok⟩ := bind_eq_ok.mp ok
    obtain ⟨_, -, ok⟩ := bind_eq_ok.mp ok
    cases ok
    exact @ih written known inner checked
  | isNull e negated ih =>
    rw [check] at ok
    obtain ⟨inner, checked, ok⟩ := bind_eq_ok.mp ok
    cases ok
    exact @ih written known inner checked
  | finite e numeric ih =>
    rw [check] at ok
    obtain ⟨inner, checked, ok⟩ := bind_eq_ok.mp ok
    cases ok
    exact @ih written known inner checked
  | binary op l r left right =>
    rw [check] at ok
    obtain ⟨side, checked, ok⟩ := bind_eq_ok.mp ok
    rw [Expr.names, List.forall_mem_append] at known
    exact binary_names ok (left written.1 known.1 checked) fun other checked => right written.2 known.2 checked
  | between e lo hi negated tested low high =>
    rw [check] at ok
    obtain ⟨value, checked, ok⟩ := bind_eq_ok.mp ok
    obtain ⟨_, -, ok⟩ := bind_eq_ok.mp ok
    obtain ⟨first, lowChecked, ok⟩ := bind_eq_ok.mp ok
    obtain ⟨lower, lowUnified, ok⟩ := bind_eq_ok.mp ok
    obtain ⟨second, highChecked, ok⟩ := bind_eq_ok.mp ok
    obtain ⟨higher, highUnified, ok⟩ := bind_eq_ok.mp ok
    cases ok
    rw [Expr.names, List.forall_mem_append, List.forall_mem_append] at known
    obtain ⟨⟨knownValue, knownLow⟩, knownHigh⟩ := known
    exact ((tested written.1 knownValue checked).append
      (unify_names lowUnified (low written.2.1 knownLow lowChecked))).append
      (unify_names highUnified (high written.2.2 knownHigh highChecked))
  | inList e list negated tested members =>
    have items {list : List Expr} {ety : Ty} {checked : List Expr}
        (members : ∀ item ∈ list, Written item →
          (∀ name ∈ item.names, (fields name).isSome = true → (scope name).isSome = true) →
          ∀ {result : Expr × Ty}, check literals fields item = .ok result → InScope scope result.1.names)
        (written : WrittenAll list)
        (known : ∀ name ∈ namesAll list, (fields name).isSome = true → (scope name).isSome = true)
        (ok : checkItems literals fields ety list = .ok checked) : InScope scope (namesAll checked) := by
      induction list generalizing checked with
      | nil => rw [checkItems] at ok; cases ok; exact fun _ mem => nomatch mem
      | cons item list ih =>
        rw [checkItems] at ok
        obtain ⟨_, -, ok⟩ := bind_eq_ok.mp ok
        obtain ⟨resolved, one, ok⟩ := bind_eq_ok.mp ok
        obtain ⟨unified, same, ok⟩ := bind_eq_ok.mp ok
        obtain ⟨others, many, ok⟩ := bind_eq_ok.mp ok
        cases ok
        rw [namesAll, List.forall_mem_append] at known
        exact (unify_names same (members item (by simp) written.1 known.1 one)).append
          (ih (fun other mem => members other (by simp [mem])) written.2 known.2 many)
    rw [check] at ok
    obtain ⟨value, checked, ok⟩ := bind_eq_ok.mp ok
    obtain ⟨_, -, ok⟩ := bind_eq_ok.mp ok
    obtain ⟨resolved, listed, ok⟩ := bind_eq_ok.mp ok
    cases ok
    rw [Expr.names, List.forall_mem_append] at known
    exact (tested written.1 known.1 checked).append
      (items (fun item mem written known => members item mem written known) written.2 known.2 listed)
  | call func args members =>
    have arguments {args : List Expr} {checked : List (Expr × Ty)}
        (members : ∀ arg ∈ args, Written arg →
          (∀ name ∈ arg.names, (fields name).isSome = true → (scope name).isSome = true) →
          ∀ {result : Expr × Ty}, check literals fields arg = .ok result → InScope scope result.1.names)
        (written : WrittenAll args)
        (known : ∀ name ∈ namesAll args, (fields name).isSome = true → (scope name).isSome = true)
        (ok : checkAll literals fields args = .ok checked) : ∀ arg ∈ checked, InScope scope arg.1.names := by
      induction args generalizing checked with
      | nil => rw [checkAll] at ok; cases ok; exact fun _ mem => nomatch mem
      | cons arg args ih =>
        rw [checkAll] at ok
        obtain ⟨resolved, one, ok⟩ := bind_eq_ok.mp ok
        obtain ⟨others, many, ok⟩ := bind_eq_ok.mp ok
        cases ok
        rw [namesAll, List.forall_mem_append] at known
        intro other mem
        obtain rfl | older := List.mem_cons.mp mem
        · exact members arg (by simp) written.1 known.1 one
        · exact ih (fun arg mem => members arg (by simp [mem])) written.2 known.2 many
            other older
    rw [check] at ok
    obtain ⟨resolved, checked, ok⟩ := bind_eq_ok.mp ok
    exact call_names ok
      (arguments (fun arg mem written known => members arg mem written known) written known checked)
  | arrayWithin field values => exact absurd written (by simp [Written])

theorem boolean_within {scope : Fields} {e resolved : Expr} (written : Written e)
    (known : ∀ name ∈ e.names, (fields name).isSome = true → (scope name).isSome = true)
    (ok : boolean literals fields e = .ok resolved) : InScope scope resolved.names := by
  obtain ⟨inner, checked, ok⟩ := bind_eq_ok.mp ok
  dsimp only at ok
  split at ok
  · cases ok; exact check_within written known checked
  · cases ok

theorem boolean_names {e resolved : Expr} (written : Written e) (ok : boolean literals fields e = .ok resolved) :
    InScope fields resolved.names := boolean_within written (fun _ _ known => known) ok

theorem scalar_names {e resolved : Expr} (written : Written e) (ok : scalar literals fields e = .ok resolved) :
    InScope fields resolved.names := by
  obtain ⟨inner, checked, ok⟩ := bind_eq_ok.mp ok
  dsimp only at ok
  split at ok
  · cases ok
  · cases ok; exact check_within written (fun _ _ known => known) checked

theorem resolve_names {resolved : Expr → Except Text Expr} {source : Text} {tree : Expr}
    (sound : ∀ {e result : Expr}, Written e → resolved e = .ok result → InScope fields result.names)
    (ok : resolve resolved source = .ok tree) : InScope fields tree.names := by
  obtain ⟨parsed, accepted, ok⟩ := bind_eq_ok.mp ok
  obtain ⟨-, ts, nesting, -, derives, -⟩ := Parser.derives_of_parse (mapError_eq_ok.mp accepted)
  exact sound (written_of_derives derives) ok

end Scope

/-! ## Shorthands -/

namespace Shorthand

variable {literals : Literals} {floatText : Text → Text} {fields : Fields} {field : FieldContract} {ty : Ty}

/-- Shorthands of a field read that field and no other. -/
def AllOf (field : FieldContract) (rules : List Shorthand) : Prop :=
  ∀ rule ∈ rules, ∀ name ∈ rule.tree.names, name = field.name

theorem AllOf.append {front rest : List Shorthand} (left : AllOf field front) (right : AllOf field rest) :
    AllOf field (front ++ rest) := by
  intro rule mem
  obtain inFront | inRest := List.mem_append.mp mem
  · exact left rule inFront
  · exact right rule inRest

theorem allOf_nil : AllOf field [] := fun _ mem => nomatch mem

/-- A tree as it is written, about one field. -/
structure About (field : FieldContract) (tree : Expr) : Prop where
  written : Written tree
  names : ∀ name ∈ tree.names, name = field.name

theorem push_names {kind : String} {tree : Expr} {rules : List Shorthand}
    (ok : push literals fields field kind tree = .ok rules) (about : About field tree) : AllOf field rules := by
  unfold push at ok
  split at ok
  case h_1 resolved checked =>
    cases ok
    intro rule mem name read
    obtain rfl := List.mem_singleton.mp mem
    -- the scope that holds the field alone
    have within : InScope (fun name => if name = field.name then fields name else none) resolved.names :=
      boolean_within about.written (fun name mem known => by rwa [if_pos (about.names name mem)]) checked
    have found := within name read
    dsimp only at found
    by_contra other
    rw [if_neg other] at found
    cases found
  case h_2 => cases ok

theorem this_about : About field (this field) := ⟨trivial, fun _ => List.mem_singleton.mp⟩

theorem number_about {text : Text} : About field (.number text) := ⟨trivial, fun _ mem => nomatch mem⟩

theorem text_about {text : Text} : About field (.text text) := ⟨trivial, fun _ mem => nomatch mem⟩

theorem finite_about : About field (finite field ty) := ⟨trivial, fun _ => List.mem_singleton.mp⟩

theorem About.binary {op : BinOp} {l r : Expr} (left : About field l) (right : About field r) :
    About field (.binary op l r) :=
  ⟨⟨left.written, right.written⟩, fun name mem =>
    (List.mem_append.mp mem).elim (left.names name) (right.names name)⟩

theorem About.call {func : Func} {arg : Expr} (about : About field arg) : About field (.call func [arg]) :=
  ⟨⟨about.written, trivial⟩, fun name mem => about.names name (by simpa [Expr.names, namesAll] using mem)⟩

theorem bound_about {name key : Text} {value : Json} {e : Expr}
    (ok : bound floatText name key value ty = .ok e) : About field e := by
  obtain ⟨text, -, ok⟩ := bind_eq_ok.mp ok
  dsimp only at ok
  split at ok
  case isTrue negative =>
    split at ok
    · cases ok
      exact ⟨trivial, fun _ mem => nomatch mem⟩
    · cases ok
  case isFalse positive =>
    split at ok
    · cases ok
      exact ⟨trivial, fun _ mem => nomatch mem⟩
    · cases ok

theorem boundRule_names {key kind : String} {op : BinOp} {value : Option Json} {rules : List Shorthand}
    (ok : boundRule literals floatText fields field ty key kind op value = .ok rules) : AllOf field rules := by
  cases value with
  | none => cases ok; exact allOf_nil
  | some value =>
    obtain ⟨_, -, ok⟩ := bind_eq_ok.mp ok
    obtain ⟨limit, bounded, ok⟩ := bind_eq_ok.mp ok
    exact push_names ok ((this_about.binary (bound_about bounded)).binary finite_about)

theorem countRule_names {key what kind : String} {fits : Bool} {op : BinOp} {measured : Expr} {rest : Option Expr}
    {count : Option Nat} {rules : List Shorthand}
    (ok : countRule literals fields field key what kind fits op measured rest count = .ok rules)
    (about : About field measured) (others : ∀ e ∈ rest, About field e) : AllOf field rules := by
  cases count with
  | none => cases ok; exact allOf_nil
  | some count =>
    obtain ⟨_, -, ok⟩ := bind_eq_ok.mp ok
    cases rest with
    | none => exact push_names ok (about.binary number_about)
    | some rest => exact push_names ok ((about.binary number_about).binary (others rest rfl))

theorem integerRule_names {rules : List Shorthand} (ok : integerRule literals fields field ty = .ok rules) :
    AllOf field rules := by
  unfold integerRule at ok
  split at ok
  case isTrue =>
    obtain ⟨_, -, ok⟩ := bind_eq_ok.mp ok
    exact push_names ok ((this_about.binary this_about.call).binary finite_about)
  case isFalse => cases ok; exact allOf_nil

theorem notBlankRule_names {rules : List Shorthand} (ok : notBlankRule literals fields field ty = .ok rules) :
    AllOf field rules := by
  unfold notBlankRule at ok
  split at ok
  case isTrue =>
    obtain ⟨_, -, ok⟩ := bind_eq_ok.mp ok
    exact push_names ok (this_about.call.call.binary number_about)
  case isFalse => cases ok; exact allOf_nil

theorem formatRule_names {rules : List Shorthand} (ok : formatRule literals fields field ty = .ok rules) :
    AllOf field rules := by
  unfold formatRule at ok
  split at ok
  case h_1 => cases ok; exact allOf_nil
  case h_2 =>
    obtain ⟨_, -, ok⟩ := bind_eq_ok.mp ok
    obtain ⟨_, -, ok⟩ := bind_eq_ok.mp ok
    exact push_names ok (this_about.binary text_about)

theorem patternRule_names {rules : List Shorthand} (ok : patternRule literals fields field ty = .ok rules) :
    AllOf field rules := by
  unfold patternRule at ok
  split at ok
  case h_1 => cases ok; exact allOf_nil
  case h_2 =>
    obtain ⟨_, -, ok⟩ := bind_eq_ok.mp ok
    exact push_names ok (this_about.binary text_about)

theorem jsonTypeRule_names {rules : List Shorthand} (ok : jsonTypeRule literals fields field ty = .ok rules) :
    AllOf field rules := by
  unfold jsonTypeRule at ok
  split at ok
  case h_1 => cases ok; exact allOf_nil
  case h_2 =>
    obtain ⟨_, -, ok⟩ := bind_eq_ok.mp ok
    obtain ⟨_, -, ok⟩ := bind_eq_ok.mp ok
    exact push_names ok (this_about.call.binary text_about)

theorem compile_names {rules : List Shorthand} (ok : compile literals floatText fields field ty = .ok rules) :
    AllOf field rules := by
  obtain ⟨minimum, minimumOk, ok⟩ := bind_eq_ok.mp ok
  obtain ⟨maximum, maximumOk, ok⟩ := bind_eq_ok.mp ok
  obtain ⟨xmin, xminOk, ok⟩ := bind_eq_ok.mp ok
  obtain ⟨xmax, xmaxOk, ok⟩ := bind_eq_ok.mp ok
  obtain ⟨integer, integerOk, ok⟩ := bind_eq_ok.mp ok
  obtain ⟨scale, scaleOk, ok⟩ := bind_eq_ok.mp ok
  obtain ⟨_, -, ok⟩ := bind_eq_ok.mp ok
  obtain ⟨minLength, minLengthOk, ok⟩ := bind_eq_ok.mp ok
  obtain ⟨maxLength, maxLengthOk, ok⟩ := bind_eq_ok.mp ok
  obtain ⟨notBlank, notBlankOk, ok⟩ := bind_eq_ok.mp ok
  obtain ⟨format, formatOk, ok⟩ := bind_eq_ok.mp ok
  obtain ⟨pattern, patternOk, ok⟩ := bind_eq_ok.mp ok
  obtain ⟨jsonType, jsonTypeOk, ok⟩ := bind_eq_ok.mp ok
  obtain ⟨maxItems, maxItemsOk, ok⟩ := bind_eq_ok.mp ok
  cases ok
  have counted {key what kind : String} {fits : Bool} {op : BinOp} {func : Func} {rest : Option Expr}
      {count : Option Nat} {rules : List Shorthand} (others : ∀ e ∈ rest, About field e)
      (ok : countRule literals fields field key what kind fits op (.call func [this field]) rest count = .ok rules) :
      AllOf field rules := countRule_names ok this_about.call others
  have none : ∀ e ∈ (none : Option Expr), About field e := fun _ mem => nomatch mem
  have finite : ∀ e ∈ some (finite field ty), About field e := by
    intro e mem
    cases mem
    exact finite_about
  refine AllOf.append ?_ (counted none maxItemsOk)
  refine AllOf.append ?_ (jsonTypeRule_names jsonTypeOk)
  refine AllOf.append ?_ (patternRule_names patternOk)
  refine AllOf.append ?_ (formatRule_names formatOk)
  refine AllOf.append ?_ (notBlankRule_names notBlankOk)
  refine AllOf.append ?_ (counted none maxLengthOk)
  refine AllOf.append ?_ (counted none minLengthOk)
  refine AllOf.append ?_ (counted finite scaleOk)
  refine AllOf.append ?_ (integerRule_names integerOk)
  refine AllOf.append ?_ (boundRule_names xmaxOk)
  refine AllOf.append ?_ (boundRule_names xminOk)
  exact (boundRule_names minimumOk).append (boundRule_names maximumOk)

end Shorthand

/-! ## Compiled objects come from sources -/

section Trace

variable {crates : Crates} {fields : Fields}

/-- A check passes the scope test when it reads no sensitive field, or only one
    field. -/
theorem sensitiveScope_check {tree : Expr} (ok : sensitiveScope tree fields false = .ok ()) :
    (Source.check tree).Guarded fields := by
  intro name read sensitive other alsoRead
  have collected {name : Text} (read : name ∈ tree.names) : name ∈ tree.fields [] := mem_fields.mpr (.inr read)
  unfold sensitiveScope at ok
  dsimp only at ok
  split at ok
  case h_1 absent => exact absurd sensitive (List.find?_eq_none.mp absent name (collected read))
  case h_2 found _ =>
    -- one field was collected, so both names are this one
    have single : (tree.fields []).length ≤ 1 := by
      by_contra several
      rw [if_neg Bool.false_ne_true, if_pos (Nat.lt_of_not_le several)] at ok
      cases ok
    have first := collected read
    have second := collected alsoRead
    cases listed : tree.fields [] with
    | nil =>
      rw [listed] at first
      cases first
    | cons only rest =>
      rw [listed] at single first second
      obtain rfl : rest = [] := List.eq_nil_of_length_eq_zero (by simpa using single)
      exact (List.mem_singleton.mp second).trans (List.mem_singleton.mp first).symm

theorem sensitiveScope_index {tree : Expr} (ok : sensitiveScope tree fields true = .ok ()) :
    ∀ name ∈ tree.names, isSensitive fields name = false := by
  intro name read
  unfold sensitiveScope at ok
  dsimp only at ok
  split at ok
  case h_1 absent => exact eq_false_of_ne_true (List.find?_eq_none.mp absent name (mem_fields.mpr (.inr read)))
  case h_2 => cases ok

theorem sound_of_single {tree : Expr} {name : Text} (names : ∀ other ∈ tree.names, other = name)
    (declared : (fields name).isSome = true) : (Source.check tree).Sound fields where
  inScope other mem := by rwa [names other mem]
  guarded first read _ other alsoRead := by rw [names first read, names other alsoRead]

theorem enumCheck_source {entity : EntityContract} {field : FieldContract} {object : CompiledCheck}
    (ok : enumCheck crates entity field fields = .ok (some object)) (declared : (fields field.name).isSome = true) :
    ∃ source : Source, (Compiled.check object).From crates.digest8 fields source ∧ source.Sound fields := by
  have single {tree : Expr} (names : tree.names = [field.name]) : (Source.check tree).Sound fields :=
    sound_of_single (fun other mem => by rwa [names, List.mem_singleton] at mem) declared
  have literals (values : List Text) : namesAll (values.map .text) = [] := by
    induction values with
    | nil => rfl
    | cons value values ih => exact ih
  unfold enumCheck at ok
  split at ok
  case h_1 => cases ok
  case h_2 values given =>
    obtain ⟨fieldType, -, ok⟩ := bind_eq_ok.mp ok
    cases ok
    cases fieldType with
    | textArray => exact ⟨.check (.arrayWithin field.name values), ⟨rfl, rfl⟩, single rfl⟩
    | _ =>
      refine ⟨.check (.inList (.field field.name) (values.map .text) false), ⟨rfl, rfl⟩, single ?_⟩
      rw [Expr.names, literals]
      rfl

theorem fieldChecks_source {entity : EntityContract} {field : FieldContract} {checks : List CompiledCheck}
    (ok : fieldChecks crates entity fields field = .ok checks) (declared : (fields field.name).isSome = true) :
    ∀ object ∈ checks, ∃ source : Source, (Compiled.check object).From crates.digest8 fields source ∧
      source.Sound fields := by
  obtain ⟨enum, enumOk, ok⟩ := bind_eq_ok.mp ok
  obtain ⟨rules, rulesOk, ok⟩ := bind_eq_ok.mp ok
  cases ok
  intro object mem
  obtain inEnum | inRules := List.mem_append.mp mem
  · cases enum with
    | none => cases inEnum
    | some check =>
      obtain rfl := List.mem_singleton.mp inEnum
      exact enumCheck_source enumOk declared
  · obtain ⟨rule, inside, rfl⟩ := List.mem_map.mp inRules
    exact ⟨.check rule.tree, ⟨rfl, rfl⟩, sound_of_single (Shorthand.compile_names rulesOk rule inside) declared⟩

theorem fieldsChecks_source {entity : EntityContract} {list : List FieldContract} {checks : List CompiledCheck}
    (ok : fieldsChecks crates entity fields list = .ok checks)
    (declared : ∀ field ∈ list, (fields field.name).isSome = true) :
    ∀ object ∈ checks, ∃ source : Source, (Compiled.check object).From crates.digest8 fields source ∧
      source.Sound fields := by
  induction list generalizing checks with
  | nil => cases ok; exact fun _ mem => nomatch mem
  | cons field list ih =>
    obtain ⟨first, firstOk, ok⟩ := bind_eq_ok.mp ok
    obtain ⟨others, othersOk, ok⟩ := bind_eq_ok.mp ok
    cases ok
    intro object mem
    obtain inFirst | inOthers := List.mem_append.mp mem
    · exact fieldChecks_source firstOk (declared field (by simp)) object inFirst
    · exact ih othersOk (fun field mem => declared field (by simp [mem])) object inOthers

theorem declaredCheck_source {position : Nat} {check : CheckContract} {object : CompiledCheck}
    (ok : declaredCheck crates fields position check = .ok object) :
    ∃ source : Source, (Compiled.check object).From crates.digest8 fields source ∧ source.Sound fields := by
  unfold declaredCheck at ok
  split at ok
  case h_1 => cases ok
  case h_2 name named =>
    obtain ⟨_, -, ok⟩ := bind_eq_ok.mp ok
    obtain ⟨tree, resolved, ok⟩ := bind_eq_ok.mp ok
    obtain ⟨inner, resolved, rest⟩ := bind_eq_ok.mp (mapError_eq_ok.mp resolved)
    obtain ⟨_, guarded, same⟩ := bind_eq_ok.mp rest
    cases same
    cases ok
    exact ⟨.check tree, ⟨rfl, rfl⟩, resolve_names boolean_names resolved, sensitiveScope_check guarded⟩

theorem declaredChecks_source {position : Nat} {list : List CheckContract} {checks : List CompiledCheck}
    (ok : declaredChecks crates fields position list = .ok checks) :
    ∀ object ∈ checks, ∃ source : Source, (Compiled.check object).From crates.digest8 fields source ∧
      source.Sound fields := by
  induction list generalizing position checks with
  | nil => cases ok; exact fun _ mem => nomatch mem
  | cons check list ih =>
    obtain ⟨first, firstOk, ok⟩ := bind_eq_ok.mp ok
    obtain ⟨others, othersOk, ok⟩ := bind_eq_ok.mp ok
    cases ok
    intro object mem
    obtain rfl | older := List.mem_cons.mp mem
    · exact declaredCheck_source firstOk
    · exact ih othersOk object older

/-- A compiled column of an index and what it was compiled from. -/
structure Key.Of (fields : Fields) (isTrigram : Bool) (column : IndexColumn) (compiled : Key) (source : KeySource) :
    Prop where
  key : compiled.key = source.key
  value : compiled.value = source.tree.value
  tree : compiled.tree = source.json
  plain : plainColumns [column] = source.tree.plain
  trigram : compiled.trigram.toList = if isTrigram then source.tree.plain else []
  inScope : InScope fields (source.tree.plain ++ source.tree.computed)
  guarded : ∀ name ∈ source.tree.computed, isSensitive fields name = false

theorem columnValue_inScope {name value : Text} (system : ∀ name, isSystemField name = true → (fields name).isSome = true)
    (ok : columnValue name fields = .ok value) : value = quoteIdent name ∧ InScope fields [name] := by
  unfold columnValue at ok
  split at ok
  case isTrue => cases ok
  case isFalse known =>
    cases ok
    refine ⟨rfl, fun other mem => ?_⟩
    obtain rfl := List.mem_singleton.mp mem
    by_cases core : isSystemField other = true
    · exact system other core
    · cases found : fields other with
      | none => simp [core, found] at known
      | some field => rfl

/-- The tree of a column. -/
theorem keyValue_source {column : IndexColumn} {value : Text} {json : Json}
    (system : ∀ name, isSystemField name = true → (fields name).isSome = true)
    (ok : keyValue crates fields column = .ok (value, json)) :
    ∃ tree : KeyTree, value = tree.value ∧ json = tree.json ∧ plainColumns [column] = tree.plain ∧
      InScope fields (tree.plain ++ tree.computed) ∧
      ∀ name ∈ tree.computed, isSensitive fields name = false := by
  cases column with
  | name name =>
    obtain ⟨written, valued, same⟩ := bind_eq_ok.mp ok
    cases same
    obtain ⟨rfl, known⟩ := columnValue_inScope system valued
    exact ⟨.name name, rfl, rfl, rfl, known, fun _ mem => nomatch mem⟩
  | spec spec =>
    simp only [keyValue] at ok
    split at ok
    case isTrue => cases ok
    case isFalse =>
      split at ok
      case h_1 name given absent =>
        obtain ⟨written, valued, same⟩ := bind_eq_ok.mp ok
        cases same
        obtain ⟨rfl, known⟩ := columnValue_inScope system valued
        refine ⟨.name name, rfl, rfl, ?_, known, fun _ mem => nomatch mem⟩
        simp [plainColumns, given, KeyTree.plain]
      case h_2 expr absent given =>
        obtain ⟨tree, resolved, ok⟩ := bind_eq_ok.mp ok
        obtain ⟨_, guarded, same⟩ := bind_eq_ok.mp ok
        cases same
        refine ⟨.expr tree, rfl, rfl, ?_, resolve_names scalar_names (mapError_eq_ok.mp resolved),
          sensitiveScope_index guarded⟩
        simp [plainColumns, absent, KeyTree.plain]
      case h_3 => cases ok
      case h_4 => cases ok

theorem sortSuffix_eq {sort : Option Text} {suffix : Text} (ok : sortSuffix sort = .ok suffix) :
    suffix = sortText (sort.map (·.map Char.toLower)) := by
  cases sort with
  | none => cases ok; rfl
  | some sort =>
    unfold sortSuffix at ok
    dsimp only at ok
    unfold sortText
    rw [Option.map_some]
    split at ok
    case isTrue asc => cases ok; rw [if_pos (congrArg some asc)]
    case isFalse notAsc =>
      split at ok
      case isTrue desc =>
        cases ok
        rw [if_neg fun same => notAsc (Option.some.inj same), if_pos (congrArg some desc)]
      case isFalse => cases ok

theorem nullsSuffix_eq {nulls : Option Text} {suffix : Text} (ok : nullsSuffix nulls = .ok suffix) :
    suffix = nullsText (nulls.map (·.map Char.toLower)) := by
  cases nulls with
  | none => cases ok; rfl
  | some nulls =>
    unfold nullsSuffix at ok
    dsimp only at ok
    unfold nullsText
    rw [Option.map_some]
    split at ok
    case isTrue first => cases ok; rw [if_pos (congrArg some first)]
    case isFalse notFirst =>
      split at ok
      case isTrue last =>
        cases ok
        rw [if_neg fun same => notFirst (Option.some.inj same), if_pos (congrArg some last)]
      case isFalse => cases ok

theorem optionJson_eq (text : Option Text) : optionJson text = textJson (text.map (·.map Char.toLower)) := by
  cases text <;> rfl

theorem trigramName_eq {column : IndexColumn} {name : Text} (ok : trigramName fields column = .ok name) :
    plainColumns [column] = [name] := by
  unfold trigramName at ok
  split at ok
  case h_1 => cases ok
  case h_2 plain found =>
    split at ok
    case isFalse => cases ok
    case isTrue =>
      cases ok
      cases column with
      | name other => cases found; rfl
      | spec spec =>
        simp only [trigramColumn] at found
        split at found
        · simp [plainColumns, found]
        · cases found

theorem compileColumn_source {trigram : Bool} {column : IndexColumn} {key : Key}
    (system : ∀ name, isSystemField name = true → (fields name).isSome = true)
    (ok : compileColumn crates fields trigram column = .ok key) :
    ∃ source : KeySource, Key.Of fields trigram column key source := by
  obtain ⟨⟨value, json⟩, valued, ok⟩ := bind_eq_ok.mp ok
  obtain ⟨tree, rfl, rfl, plain, known, guarded⟩ := keyValue_source system valued
  have finished {named : Option Text} (rest : (do
      let sort ← sortSuffix (IndexColumn.sort column)
      let nulls ← nullsSuffix (IndexColumn.nulls column)
      .ok (⟨tree.value ++ sort ++ nulls, tree.value,
        .arr [tree.json, optionJson (IndexColumn.sort column), optionJson (IndexColumn.nulls column)], named⟩ : Key)) =
        .ok key) (agrees : named.toList = if trigram then tree.plain else []) :
      ∃ source : KeySource, Key.Of fields trigram column key source := by
    obtain ⟨sort, sorted, rest⟩ := bind_eq_ok.mp rest
    obtain ⟨nulls, placed, rest⟩ := bind_eq_ok.mp rest
    cases rest
    refine ⟨⟨tree, (IndexColumn.sort column).map (·.map Char.toLower),
      (IndexColumn.nulls column).map (·.map Char.toLower)⟩, ?_, rfl, ?_, plain, agrees, known, guarded⟩
    · rw [KeySource.key, sortSuffix_eq sorted, nullsSuffix_eq placed]
    · rw [KeySource.json, optionJson_eq, optionJson_eq]
  dsimp only at ok
  split at ok
  case isTrue yes =>
    obtain ⟨named, found, rest⟩ := bind_eq_ok.mp ok
    apply finished rest
    cases name : trigramName fields column with
    | error message => rw [name] at found; cases found
    | ok name' =>
      rw [name] at found
      cases found
      rw [if_pos yes, ← plain, trigramName_eq name]
      rfl
  case isFalse no =>
    apply finished ok
    rw [if_neg no]
    rfl

theorem plainColumns_cons (column : IndexColumn) (rest : List IndexColumn) :
    plainColumns (column :: rest) = plainColumns [column] ++ plainColumns rest := by
  rw [plainColumns, plainColumns, plainColumns, ← List.filterMap_append]
  rfl

/-- The columns of an index and their sources, one for each. -/
structure Keys.Of (fields : Fields) (isTrigram : Bool) (columns : List IndexColumn) (compiled : List Key)
    (sources : List KeySource) : Prop where
  keys : compiled.map Key.key = sources.map KeySource.key
  values : compiled.map Key.value = sources.map fun source => source.tree.value
  trees : compiled.map Key.tree = sources.map KeySource.json
  plain : plainColumns columns = plainOf sources
  trigram : compiled.filterMap Key.trigram = if isTrigram then plainOf sources else []
  inScope : InScope fields (plainOf sources ++ computedOf sources)
  guarded : ∀ name ∈ computedOf sources, isSensitive fields name = false

theorem Keys.Of.cons {isTrigram : Bool} {column : IndexColumn} {columns : List IndexColumn} {key : Key}
    {keys : List Key} {source : KeySource} {sources : List KeySource} (first : Key.Of fields isTrigram column key source)
    (rest : Keys.Of fields isTrigram columns keys sources) :
    Keys.Of fields isTrigram (column :: columns) (key :: keys) (source :: sources) where
  keys := by rw [List.map_cons, List.map_cons, first.key, rest.keys]
  values := by rw [List.map_cons, List.map_cons, first.value, rest.values]
  trees := by rw [List.map_cons, List.map_cons, first.tree, rest.trees]
  plain := by rw [plainColumns_cons, first.plain, rest.plain]; rfl
  trigram := by
    have named : (key :: keys).filterMap Key.trigram = key.trigram.toList ++ keys.filterMap Key.trigram := by
      cases found : key.trigram <;> simp [List.filterMap_cons, found]
    rw [named, first.trigram, rest.trigram]
    cases isTrigram <;> rfl
  inScope := by
    intro name mem
    rw [List.mem_append] at mem
    obtain plain | computed := mem
    · obtain here | there := List.mem_append.mp plain
      · exact first.inScope name (List.mem_append.mpr (.inl here))
      · exact rest.inScope name (List.mem_append.mpr (.inl there))
    · obtain here | there := List.mem_append.mp computed
      · exact first.inScope name (List.mem_append.mpr (.inr here))
      · exact rest.inScope name (List.mem_append.mpr (.inr there))
  guarded name mem := (List.mem_append.mp mem).elim (first.guarded name) (rest.guarded name)

theorem compileColumns_source {isTrigram : Bool} {columns : List IndexColumn} {keys : List Key}
    (system : ∀ name, isSystemField name = true → (fields name).isSome = true)
    (ok : compileColumns crates fields isTrigram columns = .ok keys) :
    ∃ sources : List KeySource, Keys.Of fields isTrigram columns keys sources := by
  induction columns generalizing keys with
  | nil =>
    cases ok
    exact ⟨[], rfl, rfl, rfl, rfl, by cases isTrigram <;> rfl, (fun _ mem => nomatch mem),
      fun _ mem => nomatch mem⟩
  | cons column columns ih =>
    obtain ⟨key, firstOk, ok⟩ := bind_eq_ok.mp ok
    obtain ⟨others, othersOk, ok⟩ := bind_eq_ok.mp ok
    cases ok
    obtain ⟨source, first⟩ := compileColumn_source system firstOk
    obtain ⟨sources, rest⟩ := ih othersOk
    exact ⟨source :: sources, Keys.Of.cons first rest⟩

theorem compilePredicate_names {given : Option Text} {predicate : Option Expr}
    (ok : compilePredicate crates fields given = .ok predicate) :
    InScope fields (predicateNames predicate) ∧
      ∀ name ∈ predicateNames predicate, isSensitive fields name = false := by
  cases given with
  | none =>
    cases ok
    exact ⟨(fun _ mem => nomatch mem), fun _ mem => nomatch mem⟩
  | some source =>
    obtain ⟨tree, resolved, ok⟩ := bind_eq_ok.mp ok
    obtain ⟨_, guarded, ok⟩ := bind_eq_ok.mp ok
    cases ok
    exact ⟨resolve_names boolean_names (mapError_eq_ok.mp resolved), sensitiveScope_index guarded⟩

theorem compileIndex_source {entity : EntityContract} {index : IndexContract} {object : CompiledIndex}
    (system : ∀ name, isSystemField name = true → (fields name).isSome = true)
    (ok : compileIndex crates entity index fields = .ok object) :
    ∃ source : Source, (Compiled.index object).From crates.digest8 fields source ∧ source.Sound fields := by
  unfold compileIndex at ok
  split at ok
  case isTrue => cases ok
  case isFalse =>
    split at ok
    case isTrue => cases ok
    case isFalse =>
      obtain ⟨method, methodOk, ok⟩ := bind_eq_ok.mp ok
      obtain ⟨_, -, ok⟩ := bind_eq_ok.mp ok
      obtain ⟨keys, keysOk, ok⟩ := bind_eq_ok.mp ok
      obtain ⟨predicate, predicateOk, ok⟩ := bind_eq_ok.mp ok
      obtain ⟨sources, compiled⟩ := compileColumns_source system keysOk
      obtain ⟨inScope, guarded⟩ := compilePredicate_names predicateOk
      have known : (Source.index index.unique ((index.using_.getD "btree".toList).map Char.toLower) sources
          predicate).Sound fields :=
        ⟨compiled.inScope.append inScope, List.forall_mem_append.mpr ⟨compiled.guarded, guarded⟩⟩
      refine ⟨.index index.unique ((index.using_.getD "btree".toList).map Char.toLower) sources predicate, ?_, known⟩
      -- the name is checked last, in either case
      have shape : (Compiled.index object).From crates.digest8 fields (.index index.unique
          ((index.using_.getD "btree".toList).map Char.toLower) sources predicate) := by
        dsimp only at ok
        split at ok
        all_goals
          obtain ⟨_, -, ok⟩ := bind_eq_ok.mp ok
          cases ok
          refine ⟨rfl, rfl, methodOk, compiled.keys, compiled.values, rfl, compiled.trigram.trans ?_, ?_⟩
          · rfl
          · rw [compiled.trees, indexUsed, compiled.plain, taggedNames]
      exact shape

theorem compileIndexes_source {entity : EntityContract} {position : Nat} {seen : List Text}
    {list : List IndexContract} {indexes : List CompiledIndex}
    (system : ∀ name, isSystemField name = true → (fields name).isSome = true)
    (ok : compileIndexes crates entity fields position seen list = .ok indexes) :
    ∀ object ∈ indexes, ∃ source : Source, (Compiled.index object).From crates.digest8 fields source ∧
      source.Sound fields := by
  induction list generalizing position seen indexes with
  | nil => cases ok; exact fun _ mem => nomatch mem
  | cons index list ih =>
    obtain ⟨first, firstOk, ok⟩ := bind_eq_ok.mp ok
    split at ok
    case isTrue => cases ok
    case isFalse =>
      obtain ⟨others, othersOk, ok⟩ := bind_eq_ok.mp ok
      cases ok
      intro object mem
      obtain rfl | older := List.mem_cons.mp mem
      · exact compileIndex_source system (mapError_eq_ok.mp firstOk)
      · exact ih othersOk object older

/-! ## The scope of an entity -/

theorem declaredTypes_isSome {parseDecimal : Text → Option Text} {list : List FieldContract} {declared : Fields}
    (ok : declaredTypes parseDecimal list = .ok declared) :
    ∀ field ∈ list, (declared field.name).isSome = true := by
  induction list generalizing declared with
  | nil => exact fun _ mem => nomatch mem
  | cons field list ih =>
    obtain ⟨ty, -, ok⟩ := bind_eq_ok.mp ok
    obtain ⟨others, othersOk, ok⟩ := bind_eq_ok.mp ok
    cases ok
    intro other mem
    rw [Option.isSome_or, Bool.or_eq_true]
    obtain rfl | older := List.mem_cons.mp mem
    · right; simp
    · exact .inl (ih othersOk other older)

theorem fieldTypes_declared {parseDecimal : Text → Option Text} {entity : EntityContract} {fields : Fields}
    (ok : fieldTypes parseDecimal entity = .ok fields) :
    ∀ field ∈ entity.fields, (fields field.name).isSome = true := by
  obtain ⟨declared, declaredOk, ok⟩ := bind_eq_ok.mp ok
  cases ok
  intro field mem
  rw [Option.isSome_or, Bool.or_eq_true]
  exact .inl (declaredTypes_isSome declaredOk field mem)

theorem fieldTypes_system {parseDecimal : Text → Option Text} {entity : EntityContract} {fields : Fields}
    (ok : fieldTypes parseDecimal entity = .ok fields) :
    ∀ name, isSystemField name = true → (fields name).isSome = true := by
  obtain ⟨declared, declaredOk, ok⟩ := bind_eq_ok.mp ok
  cases ok
  intro name system
  rw [Option.isSome_or, Bool.or_eq_true]
  right
  have listed : name = "id".toList ∨ name = "created_at".toList ∨ name = "updated_at".toList := by
    simpa [isSystemField, SYSTEM_FIELDS] using system
  obtain rfl | rfl | rfl := listed
  · rfl
  · rfl
  · rfl

/-- Every check and index of an entity comes from trees over its scope that keep
    to the rule about sensitive fields. -/
theorem compileEntity_sound {entity : EntityContract} {rules : EntityRules}
    (scope : fieldTypes crates.parseDecimal entity = .ok fields) (ok : compileEntity crates entity = .ok rules) :
    ∀ object ∈ rules.objects, ∃ source : Source, object.From crates.digest8 fields source ∧ source.Sound fields := by
  obtain ⟨fields', scope', ok⟩ := bind_eq_ok.mp ok
  rw [scope] at scope'
  cases scope'
  dsimp only at ok
  split at ok
  case isTrue => cases ok
  case isFalse =>
    split at ok
    case isTrue => cases ok
    case isFalse =>
      obtain ⟨generated, generatedOk, ok⟩ := bind_eq_ok.mp ok
      obtain ⟨declared, declaredOk, ok⟩ := bind_eq_ok.mp ok
      split at ok
      case h_1 => cases ok
      case h_2 =>
        obtain ⟨indexes, indexesOk, ok⟩ := bind_eq_ok.mp ok
        cases ok
        intro object mem
        obtain inChecks | inIndexes := List.mem_append.mp mem
        · obtain ⟨check, inside, rfl⟩ := List.mem_map.mp inChecks
          obtain inGenerated | inDeclared := List.mem_append.mp inside
          · exact fieldsChecks_source generatedOk (fieldTypes_declared scope) check inGenerated
          · exact declaredChecks_source declaredOk check inDeclared
        · obtain ⟨index, inside, rfl⟩ := List.mem_map.mp inIndexes
          exact compileIndexes_source (fieldTypes_system scope) indexesOk index inside

theorem compileEntity_source {entity : EntityContract} {rules : EntityRules}
    (scope : fieldTypes crates.parseDecimal entity = .ok fields) (ok : compileEntity crates entity = .ok rules) :
    ∀ object ∈ rules.objects, ∃ source : Source, object.From crates.digest8 fields source ∧ source.Scoped fields := by
  intro object mem
  obtain ⟨source, origin, sound⟩ := compileEntity_sound scope ok object mem
  exact ⟨source, origin, sound.inScope⟩

theorem compileEntity_scope {entity : EntityContract} {rules : EntityRules} (ok : compileEntity crates entity = .ok rules) :
    ∃ fields, fieldTypes crates.parseDecimal entity = .ok fields := by
  obtain ⟨fields, scope, -⟩ := bind_eq_ok.mp ok
  exact ⟨fields, scope⟩


end Trace

end RootCx.Rules
