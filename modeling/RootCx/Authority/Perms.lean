import RootCx.Lib.Text

/-! # Permission keys and their lists

`governance/authority/perms.rs` decides whether a list of permission entries
satisfies a key (`has_permission`) and narrows two lists to what both allow
(`intersect_permissions`).  `manifest.rs` says which keys the role API accepts.

An entry *covers* a key when it is `*`, the key itself, or a wildcard `stem:*`
whose stem is followed by `:` in the key.  Covering is a preorder, and every
fact about the lists below is derived from that and from the shape of the
wildcards that cover one key.
-/

namespace RootCx.Authority

open RootCx.Text

/-! ## The source functions -/

/-- `manifest::validate_perm_key`: a nonempty key over `[a-z0-9_:.*]`. -/
def validatePermKey (key : Text) : Except Text Unit :=
  if key.isEmpty || !key.all (fun b => b.isLower || b.isDigit || b ∈ ['_', ':', '.', '*']) then
    .error ("permission key '" ++ key ++ "' must match [a-z0-9_:.*]")
  else .ok ()

def hasPermission (permissions : List Text) (required : Text) : Bool :=
  permissions.any fun p =>
    p == "*" || p == required ||
      match p.dropSuffix? ":*" with
      | some stem => stem.isPrefixOf required && required[stem.length]? == some ':'
      | none => false

/-- The key without its row-scope suffix, when it has one.  The source tests
    both suffixes with `ends_with` and cuts at the last dot. -/
def scopeBase? (key : Text) : Option Text :=
  (key.dropSuffix? ".own").orElse fun _ => key.dropSuffix? ".shared"

/-- The weakest key satisfying both grants, or `none` when they are disjoint. -/
def meet (key : Text) (other : List Text) : Option Text :=
  if hasPermission other key then some key
  else match scopeBase? key with
    | some base => if hasPermission other base then some key else none
    | none =>
      let narrowed := key ++ ".own"
      if hasPermission other narrowed then some narrowed else none

/-- Authority narrowed to what both sides allow. -/
def intersectPermissions (a b : List Text) : List Text :=
  if a.any (· == "*") then b
  else if b.any (· == "*") then a
  else
    let result := a.filterMap (meet · b) ++ b.filterMap (meet · a)
    dedup (result.insertionSort (· ≤ ·))

/-! ## Covering -/

/-- One entry of a list satisfies a key. -/
def Covers (entry key : Text) : Prop :=
  entry = "*" ∨ entry = key ∨ ∃ stem, entry = stem ++ ":*" ∧ stem ++ [':'] <+: key

theorem hasPermission_iff (permissions : List Text) (required : Text) :
    hasPermission permissions required = true ↔ ∃ p ∈ permissions, Covers p required := by
  simp only [hasPermission, List.any_eq_true, Bool.or_eq_true, beq_iff_eq, Covers, or_assoc]
  refine exists_congr fun p => and_congr_right fun _ => or_congr_right (or_congr_right ?_)
  cases cut : p.dropSuffix? ":*" with
  | none =>
    simp only [Bool.false_eq_true, false_iff, not_exists, not_and]
    exact fun stem equal => absurd equal (dropSuffix?_eq_none.mp cut stem)
  | some stem =>
    obtain rfl := dropSuffix?_eq_some.mp cut
    rw [isPrefixOf_and_next]
    constructor
    · exact fun covered => ⟨stem, rfl, covered⟩
    · rintro ⟨other, equal, covered⟩
      rwa [List.append_cancel_right equal]

theorem Covers.refl (key : Text) : Covers key key := .inr (.inl rfl)

variable {key entry base : Text} {other a b : List Text}

theorem Covers.trans {outer inner : Text} (left : Covers outer inner) (right : Covers inner key) :
    Covers outer key := by
  rcases left with star | rfl | ⟨stem, rfl, covered⟩
  · exact .inl star
  · exact right
  · rcases right with rfl | rfl | ⟨inside, rfl, reached⟩
    · -- a wildcard never covers `*`: it would have to start with `:`
      have inside : stem ++ [':'] <+: [] := snoc_prefix_of_snoc (d := '*') (by decide) covered
      simp at inside
    · exact .inr (.inr ⟨stem, rfl, covered⟩)
    · have shorter : stem ++ [':'] <+: inside ++ [':'] :=
        snoc_prefix_of_snoc (d := '*') (by decide) (by simpa using covered)
      exact .inr (.inr ⟨stem, rfl, shorter.trans reached⟩)

theorem hasPermission_of_covers {permissions : List Text} (held : hasPermission permissions entry = true)
    (covers : Covers entry key) : hasPermission permissions key = true := by
  obtain ⟨p, mem, outer⟩ := (hasPermission_iff _ _).mp held
  exact (hasPermission_iff _ _).mpr ⟨p, mem, outer.trans covers⟩

theorem hasPermission_self {permissions : List Text} (mem : key ∈ permissions) :
    hasPermission permissions key = true :=
  (hasPermission_iff _ _).mpr ⟨key, mem, .refl key⟩

/-! ## Row scopes -/

theorem scopeBase?_eq_some :
    scopeBase? key = some base ↔ key = base ++ ".own" ∨ key = base ++ ".shared" := by
  unfold scopeBase?
  cases own : key.dropSuffix? ".own" with
  | some stem =>
    obtain rfl := dropSuffix?_eq_some.mp own
    simp only [Option.orElse_some, Option.some.injEq]
    constructor
    · rintro rfl; exact .inl rfl
    · rintro (equal | equal)
      · exact List.append_cancel_right equal
      · have lasts := congrArg List.getLast? equal
        simp at lasts
  | none =>
    simp only [Option.orElse_none, dropSuffix?_eq_some]
    exact ⟨.inr, fun either => either.resolve_left (dropSuffix?_eq_none.mp own base)⟩

/-- A scope suffix holds no `:`, so a wildcard that covers the scoped key covers
    its base as well. -/
theorem wildcard_covers_base {stem : Text} (based : scopeBase? key = some base)
    (covered : stem ++ [':'] <+: key) : stem ++ [':'] <+: base := by
  rcases scopeBase?_eq_some.mp based with rfl | rfl
  · exact snoc_prefix_of_append (by decide) covered
  · exact snoc_prefix_of_append (by decide) covered

theorem scopeBase_le_key (based : scopeBase? key = some base) : base <+: key := by
  rcases scopeBase?_eq_some.mp based with rfl | rfl <;> exact List.prefix_append _ _

/-- A scoped key used as an entry is neither `*` nor a wildcard: it covers only
    itself. -/
theorem scoped_covers (based : scopeBase? entry = some base) (covers : Covers entry key) : entry = key := by
  rcases covers with star | equal | ⟨stem, equal, -⟩
  · have unscoped : scopeBase? "*" = none := by decide
    rw [star, unscoped] at based
    cases based
  · exact equal
  · have lasts := congrArg List.getLast? equal
    rcases scopeBase?_eq_some.mp based with rfl | rfl <;> simp at lasts

/-! ## What a list grants -/

/-- A list grants a key when it satisfies it, or satisfies the full scope of a
    row-scoped key. -/
def grants (permissions : List Text) (key : Text) : Bool :=
  hasPermission permissions key ||
    match scopeBase? key with
    | some base => hasPermission permissions base
    | none => false

/-- One entry grants a key. -/
def EntryGrants (entry key : Text) : Prop :=
  Covers entry key ∨ ∃ base, scopeBase? key = some base ∧ Covers entry base

theorem grants_iff (permissions : List Text) (key : Text) :
    grants permissions key = true ↔ ∃ p ∈ permissions, EntryGrants p key := by
  simp only [grants, Bool.or_eq_true, hasPermission_iff, EntryGrants]
  cases scopeBase? key with
  | none => simp
  | some base =>
    simp only [hasPermission_iff, Option.some.injEq, ↓existsAndEq, true_and]
    rw [← exists_or]
    exact exists_congr fun p => by rw [and_or_left]

theorem EntryGrants.of_covers {outer : Text} (covers : Covers outer entry) (granted : EntryGrants entry key) :
    EntryGrants outer key := by
  rcases granted with direct | ⟨base, based, onBase⟩
  · exact .inl (covers.trans direct)
  · exact .inr ⟨base, based, covers.trans onBase⟩

/-- The order behind the act-as gate: a list that satisfies every entry of
    another, wildcards included, grants everything the other grants. -/
theorem grants_of_holds_all {human target : List Text} (held : ∀ p ∈ target, hasPermission human p = true)
    (granted : grants target key = true) : grants human key = true := by
  obtain ⟨p, mem, entry⟩ := (grants_iff _ _).mp granted
  obtain ⟨q, holds, covers⟩ := (hasPermission_iff _ _).mp (held p mem)
  exact (grants_iff _ _).mpr ⟨q, holds, entry.of_covers covers⟩

/-- The three ways an entry other than `*` grants a key: it is the key, it is
    the key's full scope, or it is a wildcard over the key. -/
theorem entryGrants_cases (notStar : entry ≠ "*") :
    EntryGrants entry key ↔ entry = key ∨ scopeBase? key = some entry ∨
      ∃ stem, entry = stem ++ ":*" ∧ stem ++ [':'] <+: key := by
  constructor
  · rintro ((star | equal | wild) | ⟨base, based, star | rfl | ⟨stem, equal, covered⟩⟩)
    · exact absurd star notStar
    · exact .inl equal
    · exact .inr (.inr wild)
    · exact absurd star notStar
    · exact .inr (.inl based)
    · exact .inr (.inr ⟨stem, equal, covered.trans (scopeBase_le_key based)⟩)
  · rintro (rfl | based | wild)
    · exact .inl (.refl _)
    · exact .inr ⟨entry, based, .refl _⟩
    · exact .inl (.inr (.inr wild))

theorem wildcards_directed {left right : Text} (l : left ++ [':'] <+: key) (r : right ++ [':'] <+: key) :
    Covers (left ++ ":*") (right ++ ":*") ∨
      Covers (right ++ ":*") (left ++ ":*") := by
  rcases List.prefix_or_prefix_of_prefix l r with shorter | shorter
  · exact .inl (.inr (.inr ⟨left, rfl, shorter.trans ⟨['*'], by simp⟩⟩))
  · exact .inr (.inr (.inr ⟨right, rfl, shorter.trans ⟨['*'], by simp⟩⟩))

/-! ## Intersection -/

/-- A key carries at most one row scope: what is left under the scope suffix is
    not scoped again.  Core mints no other keys. -/
def SingleScope (key : Text) : Prop :=
  ∀ base, scopeBase? key = some base → scopeBase? base = none

instance (key : Text) : Decidable (SingleScope key) :=
  decidable_of_iff (∀ base ∈ scopeBase? key, scopeBase? base = none) Iff.rfl

theorem meet_of_has (held : hasPermission other key = true) : meet key other = some key := by
  simp [meet, held]

theorem meet_of_base (based : scopeBase? key = some base) (held : hasPermission other base = true) :
    meet key other = some key := by
  simp [meet, based, held]

/-- Everything `meet` can return, with the branch that returned it. -/
theorem meet_cases {result : Text} (h : meet key other = some result) :
    (result = key ∧ hasPermission other key = true) ∨
      (∃ base, result = key ∧ scopeBase? key = some base ∧ hasPermission other base = true) ∨
      (result = key ++ ".own" ∧ hasPermission other result = true) := by
  unfold meet at h
  split at h
  · next held => exact .inl ⟨(Option.some.inj h).symm, held⟩
  · split at h
    · next base based =>
      split at h
      · next held => exact .inr (.inl ⟨base, (Option.some.inj h).symm, based, held⟩)
      · cases h
    · next unscoped =>
      simp only [Option.ite_none_right_eq_some, Option.some.injEq] at h
      obtain ⟨held, rfl⟩ := h
      exact .inr (.inr ⟨rfl, held⟩)

/-- What `meet` keeps of an entry never exceeds either side. -/
theorem meet_grants {result : Text} (single : SingleScope key) (mem : entry ∈ a)
    (h : meet entry b = some result) (granted : EntryGrants result key) :
    grants a key = true ∧ grants b key = true := by
  -- a kept row-scoped entry grants nothing but itself, since no granted key is scoped twice
  have exact_of_scoped : ∀ {base}, scopeBase? result = some base → result = key := by
    intro base based
    rcases granted with direct | ⟨under, keyBased, onBase⟩
    · exact scoped_covers based direct
    · have equal := scoped_covers based onBase
      rw [equal, single under keyBased] at based
      cases based
  rcases meet_cases h with ⟨rfl, held⟩ | ⟨base, rfl, based, held⟩ | ⟨shape, held⟩
  · obtain ⟨q, holds, covers⟩ := (hasPermission_iff _ _).mp held
    exact ⟨(grants_iff _ _).mpr ⟨_, mem, granted⟩,
      (grants_iff _ _).mpr ⟨q, holds, granted.of_covers covers⟩⟩
  · obtain rfl := exact_of_scoped based
    obtain ⟨q, holds, covers⟩ := (hasPermission_iff _ _).mp held
    exact ⟨(grants_iff _ _).mpr ⟨_, mem, granted⟩,
      (grants_iff _ _).mpr ⟨q, holds, .inr ⟨base, based, covers⟩⟩⟩
  · have based : scopeBase? result = some entry := scopeBase?_eq_some.mpr (.inl shape)
    obtain rfl := exact_of_scoped based
    obtain ⟨q, holds, covers⟩ := (hasPermission_iff _ _).mp held
    exact ⟨(grants_iff _ _).mpr ⟨entry, mem, .inr ⟨entry, based, .refl _⟩⟩,
      (grants_iff _ _).mpr ⟨q, holds, .inl covers⟩⟩

theorem intersectPermissions_eq (a b : List Text) :
    intersectPermissions a b =
      if "*".toList ∈ a then b
      else if "*".toList ∈ b then a
      else dedup ((a.filterMap (meet · b) ++ b.filterMap (meet · a)).insertionSort (· ≤ ·)) := by
  simp [intersectPermissions]

theorem grants_of_star {list : List Text} (star : "*".toList ∈ list) (key : Text) :
    grants list key = true :=
  (grants_iff _ _).mpr ⟨_, star, .inl (.inl rfl)⟩

/-- Without a global wildcard the intersection is what `meet` keeps of both. -/
theorem mem_intersectPermissions (noStarA : "*".toList ∉ a) (noStarB : "*".toList ∉ b) (result : Text) :
    result ∈ intersectPermissions a b ↔
      (∃ p ∈ a, meet p b = some result) ∨ ∃ q ∈ b, meet q a = some result := by
  rw [intersectPermissions_eq, if_neg noStarA, if_neg noStarB]
  simp

/-- A right both sides grant survives: some entry that grants it is kept. -/
theorem intersect_keeps {p q : Text} (inA : p ∈ a) (inB : q ∈ b) (notStarP : p ≠ "*")
    (notStarQ : q ≠ "*") (grantsP : EntryGrants p key) (grantsQ : EntryGrants q key) :
    ∃ r, EntryGrants r key ∧ (meet p b = some r ∨ meet q a = some r) := by
  have keepP : Covers q p → ∃ r, EntryGrants r key ∧ (meet p b = some r ∨ meet q a = some r) :=
    fun covers => ⟨p, grantsP, .inl (meet_of_has ((hasPermission_iff _ _).mpr ⟨q, inB, covers⟩))⟩
  have keepQ : Covers p q → ∃ r, EntryGrants r key ∧ (meet p b = some r ∨ meet q a = some r) :=
    fun covers => ⟨q, grantsQ, .inr (meet_of_has ((hasPermission_iff _ _).mpr ⟨p, inA, covers⟩))⟩
  rcases (entryGrants_cases notStarP).mp grantsP with rfl | basedP | ⟨stemP, rfl, overP⟩ <;>
    rcases (entryGrants_cases notStarQ).mp grantsQ with rfl | basedQ | ⟨stemQ, rfl, overQ⟩
  · exact keepP (.refl _)
  · exact ⟨p, grantsP, .inl (meet_of_base basedQ (hasPermission_self inB))⟩
  · exact keepP (.inr (.inr ⟨stemQ, rfl, overQ⟩))
  · exact ⟨q, grantsQ, .inr (meet_of_base basedP (hasPermission_self inA))⟩
  · obtain rfl : p = q := Option.some.inj (basedP.symm.trans basedQ)
    exact keepP (.refl _)
  · exact keepP (.inr (.inr ⟨stemQ, rfl, wildcard_covers_base basedP overQ⟩))
  · exact keepQ (.inr (.inr ⟨stemP, rfl, overP⟩))
  · exact keepQ (.inr (.inr ⟨stemP, rfl, wildcard_covers_base basedQ overP⟩))
  · rcases wildcards_directed overP overQ with covers | covers
    · exact keepQ covers
    · exact keepP covers

/-- No common right is lost, however its key is scoped. -/
theorem grants_intersectPermissions_of_both (grantsA : grants a key = true) (grantsB : grants b key = true) :
    grants (intersectPermissions a b) key = true := by
  by_cases starA : "*".toList ∈ a
  · rwa [intersectPermissions_eq, if_pos starA]
  by_cases starB : "*".toList ∈ b
  · rwa [intersectPermissions_eq, if_neg starA, if_pos starB]
  obtain ⟨p, inA, entryP⟩ := (grants_iff _ _).mp grantsA
  obtain ⟨q, inB, entryQ⟩ := (grants_iff _ _).mp grantsB
  obtain ⟨r, entry, kept⟩ := intersect_keeps inA inB (fun equal => starA (equal ▸ inA))
    (fun equal => starB (equal ▸ inB)) entryP entryQ
  refine (grants_iff _ _).mpr ⟨r, (mem_intersectPermissions starA starB r).mpr ?_, entry⟩
  exact kept.imp (fun h => ⟨p, inA, h⟩) (fun h => ⟨q, inB, h⟩)

/-- Intersection of lists is intersection of the rights they grant. -/
theorem grants_intersectPermissions (a b : List Text) (single : SingleScope key) :
    grants (intersectPermissions a b) key = true ↔
      grants a key = true ∧ grants b key = true := by
  refine ⟨fun granted => ?_, fun both => grants_intersectPermissions_of_both both.1 both.2⟩
  by_cases starA : "*".toList ∈ a
  · rw [intersectPermissions_eq, if_pos starA] at granted
    exact ⟨grants_of_star starA key, granted⟩
  by_cases starB : "*".toList ∈ b
  · rw [intersectPermissions_eq, if_neg starA, if_pos starB] at granted
    exact ⟨granted, grants_of_star starB key⟩
  obtain ⟨r, mem, entry⟩ := (grants_iff _ _).mp granted
  rcases (mem_intersectPermissions starA starB r).mp mem with ⟨p, inA, kept⟩ | ⟨q, inB, kept⟩
  · exact meet_grants single inA kept entry
  · exact (meet_grants single inB kept entry).symm

end RootCx.Authority
