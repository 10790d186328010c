import RootCx.Authority.Perms

/-! # The permission matcher the database runs

`extensions/rbac/bootstrap.rs` installs `rootcx_system.match_permission`, the
plpgsql twin of `has_permission`.  A delegated transaction carries its keys in
the session setting `rootcx.effective_perms`, joined with commas by
`set_rls_context` and split again with `string_to_array` in `check_access`.  The
charset of `validate_perm_key` excludes the comma, so the encoding loses
nothing, and the two matchers agree on every requested key.
-/

namespace RootCx.Authority

open RootCx.Text List

/-! ## The SQL text functions -/

/-- `left(s, n)` for a nonnegative `n`. -/
def left (s : Text) (n : Nat) : Text := s.take n

/-- `right(s, n)` for a nonnegative `n`. -/
def right (s : Text) (n : Nat) : Text := s.drop (s.length - n)

/-- `substr(s, from, count)`, counting characters from one. -/
def substr (s : Text) (start count : Nat) : Text := (s.drop (start - 1)).take count

/-- `string_to_array(s, ',')`: the empty string is the empty array. -/
def stringToArray (s : Text) : List Text := split ',' s

/-! ## The installed functions -/

/-- The body of the `FOREACH` loop of `rootcx_system.match_permission`: whether
    this element returns `TRUE`. -/
def matchEntry (p required : Text) : Bool :=
  if p == "*" then true
  else if p == required then true
  else if right p 2 == ":*" then
    let stem := left p (p.length - 2)
    left required stem.length == stem && substr required (stem.length + 1) 1 == ":"
  else false

def matchPermission (perms : List Text) (required : Text) : Bool :=
  perms.any (matchEntry · required)

/-- `set_rls_context` joins the delegated keys into one setting. -/
def effectivePerms (perms : List Text) : Text := ",".toList.intercalate perms

/-- The delegated branch of `rootcx_system.check_access`, from the setting to
    the matcher. -/
def checkDelegated (setting required : Text) : Bool :=
  if setting == [] then false else matchPermission (stringToArray setting) required

/-! ## Agreement -/

theorem right_two_iff (p : Text) :
    right p 2 = ":*" ↔ ∃ stem, p = stem ++ ":*" := by
  constructor
  · intro h
    exact ⟨p.take (p.length - 2), by rw [← h, right, take_append_drop]⟩
  · rintro ⟨stem, rfl⟩
    simp [right]

theorem left_and_next (required stem : Text) :
    (left required stem.length == stem && substr required (stem.length + 1) 1 == ":") = true
      ↔ stem ++ [':'] <+: required := by
  simp only [left, substr, Nat.add_sub_cancel, Bool.and_eq_true, beq_iff_eq]
  constructor
  · rintro ⟨front, next⟩
    refine ⟨required.drop (stem.length + 1), ?_⟩
    have cut : required.drop stem.length = ':' :: required.drop (stem.length + 1) := by
      have whole := take_append_drop 1 (required.drop stem.length)
      rw [next, drop_drop] at whole
      exact whole.symm
    calc stem ++ [':'] ++ required.drop (stem.length + 1)
        = required.take stem.length ++ required.drop stem.length := by rw [front, cut]; simp
      _ = required := take_append_drop _ _
  · rintro ⟨rest, rfl⟩
    simp

theorem matchEntry_iff (p required : Text) : matchEntry p required = true ↔ Covers p required := by
  unfold matchEntry Covers
  by_cases star : p = "*"
  · simp [star]
  by_cases same : p = required
  · simp [same]
  simp only [star, same, beq_iff_eq, if_false, false_or]
  by_cases wild : right p 2 = ":*"
  · obtain ⟨stem, rfl⟩ := (right_two_iff p).mp wild
    have cut : left (stem ++ ":*") ((stem ++ ":*").length - 2) = stem := by
      simp [left]
    rw [if_pos wild, cut, left_and_next]
    constructor
    · exact fun covered => ⟨stem, rfl, covered⟩
    · rintro ⟨other, equal, covered⟩
      rwa [append_cancel_right equal]
  · simp only [wild, if_false, Bool.false_eq_true, false_iff]
    rintro ⟨stem, equal, -⟩
    exact wild ((right_two_iff p).mpr ⟨stem, equal⟩)

theorem matchPermission_eq_hasPermission (perms : List Text) (required : Text) :
    matchPermission perms required = hasPermission perms required := by
  rw [Bool.eq_iff_iff, hasPermission_iff]
  simp only [matchPermission, any_eq_true, matchEntry_iff]

theorem validatePermKey_ok {key : Text} (valid : validatePermKey key = .ok ()) :
    key ≠ [] ∧ ',' ∉ key := by
  unfold validatePermKey at valid
  split at valid
  · cases valid
  · next accepted =>
    simp only [Bool.or_eq_true, Bool.not_eq_true', not_or, List.isEmpty_iff, Bool.not_eq_false,
      all_eq_true] at accepted
    exact ⟨accepted.1, fun comma => absurd (accepted.2 ',' comma) (by decide)⟩

/-- Joining accepted keys into the setting and splitting it again loses
    nothing. -/
theorem stringToArray_effectivePerms {perms : List Text}
    (valid : ∀ p ∈ perms, validatePermKey p = .ok ()) :
    stringToArray (effectivePerms perms) = perms := by
  apply split_intercalate
  · exact fun p mem => (validatePermKey_ok (valid p mem)).2
  · rintro rfl
    exact (validatePermKey_ok (valid [] (by simp))).1 rfl

/-- The database and the API answer every requested key alike, from the keys as
    the session setting encodes them. -/
theorem delegated_matcher_agrees (perms : List Text)
    (valid : ∀ p ∈ perms, validatePermKey p = .ok ()) (required : Text) :
    stringToArray (effectivePerms perms) = perms ∧
      matchPermission (stringToArray (effectivePerms perms)) required =
        hasPermission perms required ∧
      checkDelegated (effectivePerms perms) required = hasPermission perms required ∧
      matchPermission (stringToArray (effectivePerms [])) required = false ∧
      ∀ p, matchEntry p required = hasPermission [p] required := by
  have decoded := stringToArray_effectivePerms valid
  have agrees : matchPermission (stringToArray (effectivePerms perms)) required =
      hasPermission perms required := by
    rw [decoded, matchPermission_eq_hasPermission]
  refine ⟨decoded, agrees, ?_, rfl, ?_⟩
  · unfold checkDelegated
    split
    · next empty =>
      rw [beq_iff_eq] at empty
      rw [← agrees, empty]
      rfl
    · exact agrees
  · intro p
    rw [← matchPermission_eq_hasPermission]
    simp [matchPermission]

theorem delegated_matcher_agrees_crm :
    matchPermission (stringToArray "app:crm:*,tool:query_data".toList)
        "app:crm:customer.read".toList = true :=
  (delegated_matcher_agrees ["app:crm:*".toList, "tool:query_data".toList] (by decide)
    "app:crm:customer.read".toList).2.1

end RootCx.Authority
