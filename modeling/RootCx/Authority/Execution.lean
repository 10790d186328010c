import RootCx.Authority.Perms
import RootCx.Lib.Except

/-! # The authority of an admitted agent

`governance/execution.rs` admits an agent invocation for a human, directly, from an
origin or below an invocation that runs already, and freezes what it may do.  Every
later use reads the human and all agents of the chain again and narrows the frozen
ceiling to what they hold by then.

Both calls read the database several times and others may write in between, so a call
runs against a sequence of worlds, one for each read.
-/

namespace RootCx.Authority

open List

/-! ## Scopes, taken off any number of times -/

/-- `base` is `key` without some of its trailing row scopes. -/
inductive Unscopes : Text → Text → Prop
  | refl (key : Text) : Unscopes key key
  | step {key inner base : Text} (scope : scopeBase? key = some inner) (rest : Unscopes inner base) : Unscopes key base

/-- A list allows a key when it satisfies the key or a wider scope of it. -/
def Allowed (permissions : List Text) (key : Text) : Prop :=
  ∃ base, Unscopes key base ∧ hasPermission permissions base = true

def Contained (inner outer : List Text) : Prop :=
  ∀ key, Allowed inner key → Allowed outer key

theorem Contained.refl (list : List Text) : Contained list list := fun _ allowed => allowed

variable {inner : List Text} {key : Text} {granted : List Text} {app : Text} {current : List Text}
  {scope : Option (List Text)} {result : List Text} {token : Nat}

theorem Contained.trans {middle outer : List Text} (left : Contained inner middle)
    (right : Contained middle outer) : Contained inner outer :=
  fun key allowed => right key (left key allowed)

theorem Unscopes.widen {inner base : Text} (scopes : Unscopes key inner)
    (wider : scopeBase? inner = some base) : Unscopes key base := by
  induction scopes with
  | refl => exact .step wider (.refl base)
  | step scope _ ih => exact .step scope (ih wider)

theorem hasPermission_of_allowed {permissions : List Text} (unscoped : scopeBase? key = none)
    (allowed : Allowed permissions key) : hasPermission permissions key = true := by
  obtain ⟨base, scopes, held⟩ := allowed
  cases scopes with
  | refl => exact held
  | step scope _ => simp [unscoped] at scope

theorem allowed_of_hasPermission {permissions : List Text} (held : hasPermission permissions key = true) :
    Allowed permissions key :=
  ⟨key, .refl key, held⟩

theorem allowed_of_star {list : List Text} (star : "*".toList ∈ list) (key : Text) : Allowed list key := by
  apply allowed_of_hasPermission
  exact (hasPermission_iff _ _).mpr ⟨_, star, .inl rfl⟩

/-- What `meet` keeps of an entry of one list stays within both lists. -/
theorem meet_allowed {a b : List Text} {entry result base : Text} (mem : entry ∈ a)
    (kept : meet entry b = some result) (scopes : Unscopes key base) (covers : Covers result base) :
    Allowed a key ∧ Allowed b key := by
  rcases meet_cases kept with ⟨rfl, held⟩ | ⟨wider, rfl, based, held⟩ | ⟨narrowed, held⟩
  · constructor
    · exact ⟨base, scopes, (hasPermission_iff _ _).mpr ⟨result, mem, covers⟩⟩
    · exact ⟨base, scopes, hasPermission_of_covers held covers⟩
  · -- a row-scoped entry covers itself only, so its full scope is reached from the key
    obtain rfl := scoped_covers based covers
    constructor
    · exact ⟨result, scopes, hasPermission_self mem⟩
    · exact ⟨wider, scopes.widen based, held⟩
  · have based : scopeBase? result = some entry := by
      rw [narrowed]
      exact scopeBase?_eq_some.mpr (.inl rfl)
    obtain rfl := scoped_covers based covers
    constructor
    · exact ⟨entry, scopes.widen based, hasPermission_self mem⟩
    · exact ⟨result, scopes, held⟩

theorem intersectPermissions_contained (a b : List Text) :
    Contained (intersectPermissions a b) a ∧ Contained (intersectPermissions a b) b := by
  by_cases starA : "*".toList ∈ a
  · rw [intersectPermissions_eq, if_pos starA]
    exact ⟨fun key _ => allowed_of_star starA key, .refl b⟩
  by_cases starB : "*".toList ∈ b
  · rw [intersectPermissions_eq, if_neg starA, if_pos starB]
    exact ⟨.refl a, fun key _ => allowed_of_star starB key⟩
  have both : ∀ key, Allowed (intersectPermissions a b) key → Allowed a key ∧ Allowed b key := by
    intro key allowed
    obtain ⟨base, scopes, held⟩ := allowed
    obtain ⟨result, mem, covers⟩ := (hasPermission_iff _ _).mp held
    rcases (mem_intersectPermissions starA starB result).mp mem with ⟨p, inA, kept⟩ | ⟨q, inB, kept⟩
    · exact meet_allowed inA kept scopes covers
    · exact (meet_allowed inB kept scopes covers).symm
  exact ⟨fun key allowed => (both key allowed).1, fun key allowed => (both key allowed).2⟩

/-! ## Reading a world that changes -/

/-- What a call reads: the principals, the answers of the origins and the invocations
    that have ended. -/
structure World (Uid Origin : Type) where
  principalEnabled : Uid → Bool
  resolvePermissions : Uid → Except Text (List Text)
  validate : Origin → Uid → Text → Except Text Unit
  ended : Nat → Bool

variable {Uid Origin : Type}

/-- A call that reads the world at successive moments. -/
abbrev Reads := StateT Nat (Except Text)

section Reading

variable {α : Type} (world : Nat → World Uid Origin)

def look (read : World Uid Origin → α) : Reads α := fun now => .ok (read (world now), now + 1)

def ask (read : World Uid Origin → Except Text α) : Reads α := fun now =>
  (read (world now)).map fun answer => (answer, now + 1)

def refuse (message : String) : Reads α := fun _ => .error message.toList

variable {world}

theorem look_ok {read : World Uid Origin → α} {now next : Nat} {answer : α} :
    look world read now = .ok (answer, next) ↔ read (world now) = answer ∧ next = now + 1 := by
  simp [look, eq_comm]

theorem ask_ok {read : World Uid Origin → Except Text α} {now next : Nat} {answer : α} :
    ask world read now = .ok (answer, next) ↔ read (world now) = .ok answer ∧ next = now + 1 := by
  cases found : read (world now) with
  | error message => simp [ask, found, Except.map]
  | ok value => simp [ask, found, Except.map, eq_comm]

end Reading

/-! ## The source functions -/

structure AgentAuthority (Uid Origin : Type) where
  human : Uid
  agents : List Text
  ceiling : List Text
  taskScope : Option (List Text)
  origin : Option Origin
  /-- The cancellation token of the invocation, before those it is a child of. -/
  lifetime : List Nat

inductive AgentSource (Uid Origin : Type) where
  | direct
  | origin (origin : Origin)
  | child (parent : AgentAuthority Uid Origin)

def invokeKey (app : Text) : Text := "app:" ++ app ++ ":invoke"

section Calls

variable (agentUserId : Text → Uid) (world : Nat → World Uid Origin)

/-- The first agent of the chain; an admitted chain has one. -/
def AgentAuthority.rootApp (self : AgentAuthority Uid Origin) : Text := self.agents.headD []

def AgentAuthority.ensureActive (self : AgentAuthority Uid Origin) : Reads Unit := do
  if ← look world (fun now => self.lifetime.any now.ended) then refuse "agent invocation ended"

/-- The loop of `revalidate` over the agents of the chain. -/
def narrow : List Text → List Text → Reads (List Text)
  | [], current => pure current
  | app :: rest, current => do
    if !hasPermission current (invokeKey app) then
      fun _ => .error ("permission denied: " ++ invokeKey app)
    else if !(← look world (·.principalEnabled (agentUserId app))) then refuse "agent disabled or missing"
    else
      let permissions ← ask world (·.resolvePermissions (agentUserId app))
      narrow rest (intersectPermissions current permissions)

def AgentAuthority.validateOrigin (self : AgentAuthority Uid Origin) : Reads Unit :=
  match self.origin with
  | some origin => ask world (·.validate origin self.human self.rootApp)
  | none => pure ()

def AgentAuthority.revalidate (self : AgentAuthority Uid Origin) : Reads (List Text) := do
  self.ensureActive world
  if !(← look world (·.principalEnabled self.human)) then refuse "responsible human disabled or missing"
  else
    self.validateOrigin world
    let current ← ask world (·.resolvePermissions self.human)
    let current ← narrow agentUserId world self.agents current
    self.ensureActive world
    pure (intersectPermissions self.ceiling current)

/-- What `admit` takes over from the source of the invocation: the chain above, the
    ceiling to narrow, the origin, the token and the task scope. -/
structure Base (Uid Origin : Type) where
  agents : List Text
  ceiling : List Text
  origin : Option Origin
  lifetime : List Nat
  taskScope : Option (List Text)

def AgentSource.base [DecidableEq Uid] (app : Text) (human : Uid) (scope : Option (List Text)) (token : Nat) :
    AgentSource Uid Origin → Reads (Base Uid Origin)
  | .child parent =>
    if parent.human ≠ human then refuse "delegation identity mismatch"
    else if parent.agents.any (· == app) then refuse "agent delegation cycle"
    else do
      let ceiling ← parent.revalidate agentUserId world
      pure ⟨parent.agents, ceiling, parent.origin, token :: parent.lifetime, parent.taskScope⟩
  | source => do
    if !(← look world (·.principalEnabled human)) then refuse "responsible human disabled or missing"
    else
      let ceiling ← ask world (·.resolvePermissions human)
      let origin := match source with
        | .origin session => some session
        | _ => none
      pure ⟨[], ceiling, origin, [token], scope⟩

/-- `AgentAuthority::admit`; `token` is the token it creates. -/
def admitAgent [DecidableEq Uid] (app : Text) (human : Option Uid) (scope : Option (List Text)) (source : AgentSource Uid Origin)
    (token : Nat) : Reads (AgentAuthority Uid Origin) :=
  match human with
  | none => refuse "agent execution requires a responsible human"
  | some human => do
    let base ← source.base agentUserId world app human scope token
    if !hasPermission base.ceiling (invokeKey app) then
      fun _ => .error ("permission denied: " ++ invokeKey app)
    else if !(← look world (·.principalEnabled (agentUserId app))) then refuse "agent disabled or missing"
    else
      let current ← ask world (·.resolvePermissions (agentUserId app))
      let ceiling := intersectPermissions base.ceiling current
      let ceiling := match base.taskScope with
        | some scope => intersectPermissions ceiling scope
        | none => ceiling
      let authority : AgentAuthority Uid Origin :=
        ⟨human, base.agents ++ [app], ceiling, base.taskScope, base.origin, base.lifetime⟩
      authority.validateOrigin world
      authority.ensureActive world
      pure authority

/-- The end of an invocation, `lifetime.cancel()`. -/
def AgentAuthority.finish (self : AgentAuthority Uid Origin) (now : World Uid Origin) : World Uid Origin :=
  { now with ended := fun token => now.ended token || self.lifetime.head? == some token }

def AgentAuthority.finished (self : AgentAuthority Uid Origin) (now : World Uid Origin) : Bool :=
  self.lifetime.head?.any now.ended

end Calls

/-! ## What a successful call has read -/

section Spec

variable {agentUserId : Text → Uid} {world : Nat → World Uid Origin} {self : AgentAuthority Uid Origin}
variable {now next : Nat}

theorem ensureActive_ok {answer : Unit} (ran : self.ensureActive world now = .ok (answer, next)) :
    self.lifetime.any (world now).ended = false ∧ next = now + 1 := by
  obtain ⟨ended, later, looked, ran⟩ := stateT_bind_ok.mp ran
  obtain ⟨read, rfl⟩ := look_ok.mp looked
  cases ended with
  | true => simp [refuse] at ran
  | false =>
    obtain ⟨-, rfl⟩ := stateT_pure_ok.mp ran
    exact ⟨read, rfl⟩

theorem validateOrigin_ok {answer : Unit} (ran : self.validateOrigin world now = .ok (answer, next)) :
    now ≤ next ∧ ∀ origin, self.origin = some origin →
      (world now).validate origin self.human self.rootApp = .ok () ∧ now < next := by
  unfold AgentAuthority.validateOrigin at ran
  cases comes : self.origin with
  | none =>
    rw [comes] at ran
    obtain ⟨-, rfl⟩ := stateT_pure_ok.mp ran
    exact ⟨le_refl _, fun _ found => nomatch found⟩
  | some origin =>
    rw [comes] at ran
    obtain ⟨read, rfl⟩ := ask_ok.mp ran
    constructor
    · omega
    · intro other same
      cases same
      exact ⟨read, by omega⟩

theorem scopeBase_invokeKey (app : Text) : scopeBase? (invokeKey app) = none := by
  cases based : scopeBase? (invokeKey app) with
  | none => rfl
  | some base =>
    have lasts : (invokeKey app).getLast? = some 'e' := by
      rw [invokeKey, getLast?_append_of_ne_nil _ (by decide)]
      rfl
    rcases scopeBase?_eq_some.mp based with same | same
    · simp [same] at lasts
    · simp [same] at lasts

theorem invoke_of_contained {outer : List Text} (within : Contained inner outer)
    (held : hasPermission inner (invokeKey app) = true) : hasPermission outer (invokeKey app) = true := by
  apply hasPermission_of_allowed (scopeBase_invokeKey app)
  exact within _ (allowed_of_hasPermission held)

/-- The permissions of a principal at a moment of the call bound the list. -/
def Bounded (world : Nat → World Uid Origin) (now next : Nat) (uid : Uid) (granted : List Text) : Prop :=
  ∃ moment permissions, now ≤ moment ∧ moment < next ∧ (world moment).resolvePermissions uid = .ok permissions ∧
    Contained granted permissions

theorem Bounded.of_contained {uid : Uid} (bounded : Bounded world now next uid granted)
    (within : Contained inner granted) : Bounded world now next uid inner := by
  obtain ⟨moment, permissions, after, before, read, bound⟩ := bounded
  exact ⟨moment, permissions, after, before, read, within.trans bound⟩

theorem Bounded.widen {uid : Uid} {first last : Nat} (bounded : Bounded world now next uid granted)
    (earlier : first ≤ now) (later : next ≤ last) : Bounded world first last uid granted := by
  obtain ⟨moment, permissions, after, before, read, bound⟩ := bounded
  exact ⟨moment, permissions, by omega, by omega, read, bound⟩

/-- What the loop over the agents has established about one of them. -/
structure Checked (agentUserId : Text → Uid) (world : Nat → World Uid Origin) (now next : Nat) (app : Text)
    (granted : List Text) : Prop where
  enabled : ∃ moment, now ≤ moment ∧ moment < next ∧ (world moment).principalEnabled (agentUserId app) = true
  bounded : Bounded world now next (agentUserId app) granted

theorem narrow_cons {rest : List Text}
    (ran : narrow agentUserId world (app :: rest) current now = .ok (result, next)) :
    hasPermission current (invokeKey app) = true ∧ (world now).principalEnabled (agentUserId app) = true ∧
      ∃ permissions, (world (now + 1)).resolvePermissions (agentUserId app) = .ok permissions ∧
        narrow agentUserId world rest (intersectPermissions current permissions) (now + 2) = .ok (result, next) := by
  rw [narrow] at ran
  cases held : hasPermission current (invokeKey app) with
  | false => simp [held] at ran
  | true =>
    simp only [held, Bool.not_true, Bool.false_eq_true, ↓reduceIte] at ran
    obtain ⟨enabled, later, looked, ran⟩ := stateT_bind_ok.mp ran
    obtain ⟨read, rfl⟩ := look_ok.mp looked
    cases enabled with
    | false => simp [refuse] at ran
    | true =>
      obtain ⟨permissions, later, asked, ran⟩ := stateT_bind_ok.mp ran
      obtain ⟨answer, rfl⟩ := ask_ok.mp asked
      exact ⟨rfl, read, permissions, answer, ran⟩

theorem narrow_ok {apps : List Text} (ran : narrow agentUserId world apps current now = .ok (result, next)) :
    now ≤ next ∧ Contained result current ∧ ∀ app ∈ apps, Checked agentUserId world now next app result := by
  induction apps generalizing current now with
  | nil =>
    obtain ⟨rfl, rfl⟩ := stateT_pure_ok.mp ran
    exact ⟨le_refl _, .refl _, fun _ mem => absurd mem not_mem_nil⟩
  | cons app rest ih =>
    obtain ⟨held, enabled, permissions, read, ran⟩ := narrow_cons ran
    obtain ⟨later, within, checked⟩ := ih ran
    obtain ⟨left, right⟩ := intersectPermissions_contained current permissions
    refine ⟨by omega, within.trans left, fun other mem => ?_⟩
    rcases mem_cons.mp mem with rfl | mem
    · exact ⟨⟨now, by omega, by omega, enabled⟩,
        now + 1, permissions, by omega, by omega, read, within.trans right⟩
    · obtain ⟨⟨moment, after, before, on⟩, bounded⟩ := checked other mem
      exact ⟨⟨moment, by omega, before, on⟩, bounded.widen (by omega) (le_refl _)⟩

theorem narrow_invoke {apps : List Text} {front back : List Text}
    (ran : narrow agentUserId world apps current now = .ok (result, next))
    (split : apps = front ++ app :: back) :
    hasPermission current (invokeKey app) = true ∧ ∀ agent ∈ front, ∃ moment permissions, now ≤ moment ∧
      (world moment).resolvePermissions (agentUserId agent) = .ok permissions ∧
      hasPermission permissions (invokeKey app) = true := by
  induction front generalizing apps current now with
  | nil =>
    subst split
    obtain ⟨held, -⟩ := narrow_cons ran
    exact ⟨held, fun _ mem => absurd mem not_mem_nil⟩
  | cons first front ih =>
    subst split
    obtain ⟨-, -, permissions, read, ran⟩ := narrow_cons ran
    obtain ⟨held, others⟩ := ih ran rfl
    obtain ⟨left, right⟩ := intersectPermissions_contained current permissions
    refine ⟨invoke_of_contained left held, fun agent mem => ?_⟩
    rcases mem_cons.mp mem with rfl | mem
    · exact ⟨now + 1, permissions, by omega, read, invoke_of_contained right held⟩
    · obtain ⟨moment, permissions, after, read, held⟩ := others agent mem
      exact ⟨moment, permissions, by omega, read, held⟩

/-- Everything a successful `revalidate` has gone through. -/
theorem revalidate_ok (ran : self.revalidate agentUserId world now = .ok (granted, next)) :
    self.lifetime.any (world now).ended = false ∧ (world (now + 1)).principalEnabled self.human = true ∧
      ∃ asked read permissions current, now + 2 ≤ asked ∧ asked + 1 ≤ read ∧ read < next ∧
        (∀ origin, self.origin = some origin → (world (now + 2)).validate origin self.human self.rootApp = .ok ()) ∧
        (world asked).resolvePermissions self.human = .ok permissions ∧
        narrow agentUserId world self.agents permissions (asked + 1) = .ok (current, read) ∧
        granted = intersectPermissions self.ceiling current := by
  obtain ⟨done, later, active, ran⟩ := stateT_bind_ok.mp ran
  obtain ⟨live, rfl⟩ := ensureActive_ok active
  obtain ⟨enabled, later, looked, ran⟩ := stateT_bind_ok.mp ran
  obtain ⟨on, rfl⟩ := look_ok.mp looked
  cases enabled with
  | false => simp [refuse] at ran
  | true =>
    obtain ⟨done, asked, validated, ran⟩ := stateT_bind_ok.mp ran
    obtain ⟨after, origin⟩ := validateOrigin_ok validated
    obtain ⟨permissions, later, held, ran⟩ := stateT_bind_ok.mp ran
    obtain ⟨answer, rfl⟩ := ask_ok.mp held
    obtain ⟨current, read, narrowed, ran⟩ := stateT_bind_ok.mp ran
    obtain ⟨done, last, again, ran⟩ := stateT_bind_ok.mp ran
    obtain ⟨-, rfl⟩ := ensureActive_ok again
    obtain ⟨rfl, rfl⟩ := stateT_pure_ok.mp ran
    have grown := (narrow_ok narrowed).1
    exact ⟨live, on, asked, read, permissions, current, by omega, by omega, by omega,
      fun found comes => (origin found comes).1, answer, narrowed, rfl⟩

/-! ## Admitted chains -/

variable [DecidableEq Uid]

theorem child_base_ok {human : Uid} {parent : AgentAuthority Uid Origin} {base : Base Uid Origin}
    (ran : (AgentSource.child parent).base agentUserId world app human scope token now = .ok (base, next)) :
    parent.human = human ∧ app ∉ parent.agents ∧ ∃ ceiling,
      parent.revalidate agentUserId world now = .ok (ceiling, next) ∧
      base = ⟨parent.agents, ceiling, parent.origin, token :: parent.lifetime, parent.taskScope⟩ := by
  unfold AgentSource.base at ran
  by_cases same : parent.human = human
  · by_cases known : parent.agents.any (· == app) = true
    · simp [same, known, refuse] at ran
    · simp only [same, ne_eq, not_true_eq_false, ↓reduceIte, known] at ran
      obtain ⟨ceiling, later, revalidated, ran⟩ := stateT_bind_ok.mp ran
      obtain ⟨rfl, rfl⟩ := stateT_pure_ok.mp ran
      exact ⟨same, by simpa using known, ceiling, revalidated, rfl⟩
  · simp [same, refuse] at ran

theorem root_base_ok {human : Uid} {source : AgentSource Uid Origin} {base : Base Uid Origin}
    (outer : ∀ parent, source ≠ .child parent)
    (ran : source.base agentUserId world app human scope token now = .ok (base, next)) :
    base.agents = [] ∧ base.lifetime = [token] ∧ base.taskScope = scope := by
  cases source with
  | child parent => exact absurd rfl (outer parent)
  | direct | origin =>
    obtain ⟨enabled, later, looked, ran⟩ := stateT_bind_ok.mp ran
    cases enabled with
    | false => simp [refuse] at ran
    | true =>
      obtain ⟨ceiling, later, asked, ran⟩ := stateT_bind_ok.mp ran
      obtain ⟨rfl, -⟩ := stateT_pure_ok.mp ran
      exact ⟨rfl, rfl, rfl⟩

/-- What an admission makes of its base. -/
theorem admit_ok {human : Option Uid} {source : AgentSource Uid Origin}
    (ran : admitAgent agentUserId world app human scope source token now = .ok (self, next)) :
    ∃ responsible base later, human = some responsible ∧
      source.base agentUserId world app responsible scope token now = .ok (base, later) ∧
      self.human = responsible ∧ self.agents = base.agents ++ [app] ∧ self.taskScope = base.taskScope ∧
      self.lifetime = base.lifetime ∧ Contained self.ceiling base.ceiling ∧
      ∀ limit, base.taskScope = some limit → Contained self.ceiling limit := by
  cases human with
  | none => simp [admitAgent, refuse] at ran
  | some responsible =>
    obtain ⟨base, later, based, ran⟩ := stateT_bind_ok.mp ran
    refine ⟨responsible, base, later, rfl, based, ?_⟩
    cases held : hasPermission base.ceiling (invokeKey app) with
    | false => simp [held] at ran
    | true =>
      simp only [held, Bool.not_true, Bool.false_eq_true, ↓reduceIte] at ran
      obtain ⟨enabled, second, -, ran⟩ := stateT_bind_ok.mp ran
      cases enabled with
      | false => simp [refuse] at ran
      | true =>
        obtain ⟨current, third, -, ran⟩ := stateT_bind_ok.mp ran
        obtain ⟨done, fourth, -, ran⟩ := stateT_bind_ok.mp ran
        obtain ⟨done, last, -, ran⟩ := stateT_bind_ok.mp ran
        obtain ⟨rfl, -⟩ := stateT_pure_ok.mp ran
        obtain ⟨within, -⟩ := intersectPermissions_contained base.ceiling current
        refine ⟨rfl, rfl, rfl, rfl, ?_, ?_⟩
        · cases base.taskScope with
          | none => exact within
          | some limit => exact (intersectPermissions_contained _ limit).1.trans within
        · intro limit limited
          simp only [limited]
          exact (intersectPermissions_contained _ limit).2

end Spec

section Chains

variable [DecidableEq Uid] (agentUserId : Text → Uid)

/-- An invocation with those it runs below, itself first, and the task scope of the
    root; each was admitted at its own time. -/
inductive Admitted : AgentAuthority Uid Origin → List (AgentAuthority Uid Origin) → Option (List Text) → Prop
  | root {world : Nat → World Uid Origin} {now next : Nat} {app : Text} {human : Option Uid}
      {scope : Option (List Text)} {source : AgentSource Uid Origin} {token : Nat}
      {authority : AgentAuthority Uid Origin} (outer : ∀ parent, source ≠ .child parent)
      (ran : admitAgent agentUserId world app human scope source token now = .ok (authority, next)) :
      Admitted authority [authority] scope
  | child {world : Nat → World Uid Origin} {now next : Nat} {app : Text} {human : Option Uid}
      {asked scope : Option (List Text)} {token : Nat} {parent authority : AgentAuthority Uid Origin}
      {line : List (AgentAuthority Uid Origin)} (above : Admitted parent line scope)
      (ran : admitAgent agentUserId world app human asked (.child parent) token now = .ok (authority, next)) :
      Admitted authority (authority :: line) scope

variable {agentUserId} {authority : AgentAuthority Uid Origin} {line : List (AgentAuthority Uid Origin)}
variable {scope : Option (List Text)}

theorem Admitted.taskScope (admitted : Admitted agentUserId authority line scope) :
    authority.taskScope = scope := by
  induction admitted with
  | root outer ran =>
    obtain ⟨responsible, base, later, -, based, -, -, kept, -⟩ := admit_ok ran
    exact kept.trans (root_base_ok outer based).2.2
  | child above ran ih =>
    obtain ⟨responsible, base, later, -, based, -, -, kept, -⟩ := admit_ok ran
    obtain ⟨-, -, ceiling, -, rfl⟩ := child_base_ok based
    exact kept.trans ih

theorem Admitted.agents_nodup (admitted : Admitted agentUserId authority line scope) : authority.agents.Nodup := by
  induction admitted with
  | root outer ran =>
    obtain ⟨responsible, base, later, -, based, -, agents, -⟩ := admit_ok ran
    rw [agents, (root_base_ok outer based).1]
    exact nodup_singleton _
  | child above ran ih =>
    obtain ⟨responsible, base, later, -, based, -, agents, -⟩ := admit_ok ran
    obtain ⟨-, fresh, ceiling, -, rfl⟩ := child_base_ok based
    rw [agents, ← concat_eq_append]
    exact ih.concat fresh

theorem Admitted.ceiling_scope (admitted : Admitted agentUserId authority line scope) {limit : List Text}
    (limited : scope = some limit) : Contained authority.ceiling limit := by
  have same := admitted.taskScope
  cases admitted with
  | root outer ran | child above ran =>
    obtain ⟨responsible, base, later, -, -, -, -, kept, -, -, within⟩ := admit_ok ran
    exact within limit (by rw [← kept, same, limited])

theorem Admitted.listens (admitted : Admitted agentUserId authority line scope) {above : AgentAuthority Uid Origin}
    (mem : above ∈ line) : ∃ token, above.lifetime.head? = some token ∧ token ∈ authority.lifetime := by
  induction admitted with
  | root outer ran =>
    obtain rfl := mem_singleton.mp mem
    obtain ⟨responsible, base, later, -, based, -, -, -, lifetime, -⟩ := admit_ok ran
    rw [lifetime, (root_base_ok outer based).2.1]
    exact ⟨_, rfl, mem_singleton_self _⟩
  | child parent ran ih =>
    obtain ⟨responsible, base, later, -, based, -, -, -, lifetime, -⟩ := admit_ok ran
    obtain ⟨-, -, ceiling, -, rfl⟩ := child_base_ok based
    rcases mem_cons.mp mem with rfl | mem
    · rw [lifetime]
      exact ⟨_, rfl, mem_cons_self⟩
    · obtain ⟨token, first, heard⟩ := ih mem
      rw [lifetime]
      exact ⟨token, first, mem_cons_of_mem _ heard⟩

/-- What ends the authority of a chain from a moment on. -/
inductive Lapsed (agentUserId : Text → Uid) (authority : AgentAuthority Uid Origin)
    (line : List (AgentAuthority Uid Origin)) (world : Nat → World Uid Origin) (now : Nat) : Prop
  | human (disabled : ∀ moment ≥ now, (world moment).principalEnabled authority.human = false)
  | origin {session : Origin} (comes : authority.origin = some session)
      (revoked : ∀ moment ≥ now, ∃ message,
        (world moment).validate session authority.human authority.rootApp = .error message)
  | agent {app : Text} (member : app ∈ authority.agents)
      (disabled : ∀ moment ≥ now, (world moment).principalEnabled (agentUserId app) = false)
  | humanRight {app : Text} (member : app ∈ authority.agents)
      (lost : ∀ moment ≥ now, ∀ permissions, (world moment).resolvePermissions authority.human = .ok permissions →
        hasPermission permissions (invokeKey app) = false)
  | agentRight {front back : List Text} {app agent : Text} (split : authority.agents = front ++ app :: back)
      (earlier : agent ∈ front)
      (lost : ∀ moment ≥ now, ∀ permissions, (world moment).resolvePermissions (agentUserId agent) = .ok permissions →
        hasPermission permissions (invokeKey app) = false)
  | ended {above : AgentAuthority Uid Origin} (member : above ∈ line)
      (finished : ∀ moment ≥ now, above.finished (world moment) = true)

/-- No call of `revalidate` succeeds once the chain has lapsed. -/
theorem Admitted.lapsed (admitted : Admitted agentUserId authority line scope) {world : Nat → World Uid Origin}
    {now : Nat} (lapsed : Lapsed agentUserId authority line world now) :
    ∃ message, authority.revalidate agentUserId world now = .error message := by
  cases result : authority.revalidate agentUserId world now with
  | error message => exact ⟨message, rfl⟩
  | ok answer =>
    exfalso
    obtain ⟨granted, next⟩ := answer
    obtain ⟨live, on, asked, read, permissions, current, first, second, third, origin, held, narrowed, -⟩ :=
      revalidate_ok result
    cases lapsed with
    | human disabled => simp [disabled (now + 1) (by omega)] at on
    | origin comes revoked =>
      obtain ⟨message, refused⟩ := revoked (now + 2) (by omega)
      rw [origin _ comes] at refused
      cases refused
    | agent mem disabled =>
      obtain ⟨⟨moment, after, -, enabled⟩, -⟩ := (narrow_ok narrowed).2.2 _ mem
      simp [disabled moment (by omega)] at enabled
    | humanRight mem lost =>
      obtain ⟨front, back, split⟩ := append_of_mem mem
      have right := (narrow_invoke narrowed split).1
      simp [lost asked (by omega) permissions held] at right
    | agentRight split earlier lost =>
      obtain ⟨moment, permissions, after, held, right⟩ := (narrow_invoke narrowed split).2 _ earlier
      simp [lost moment (by omega) permissions held] at right
    | ended mem finished =>
      obtain ⟨token, first, heard⟩ := admitted.listens mem
      have stopped := finished now (le_refl _)
      simp only [AgentAuthority.finished, first, Option.any_some] at stopped
      simp only [any_eq_false] at live
      exact live token heard stopped

/-- Whatever the human, the agents and the origin of an admitted chain become later:
    no agent occurs twice in it; a successful `revalidate` grants no more than the ceiling
    of the admission, the task scope of the root and what the human and every agent hold
    during the call; and it fails once the chain has lapsed. -/
theorem revalidate_confined (admitted : Admitted agentUserId authority line scope) :
    authority.agents.Nodup ∧
    (∀ (world : Nat → World Uid Origin) now next granted,
      authority.revalidate agentUserId world now = .ok (granted, next) →
        Contained granted authority.ceiling ∧ (∀ limit, scope = some limit → Contained granted limit) ∧
        Bounded world now next authority.human granted ∧
        ∀ app ∈ authority.agents, Bounded world now next (agentUserId app) granted) ∧
    ∀ (world : Nat → World Uid Origin) now, Lapsed agentUserId authority line world now →
      ∃ message, authority.revalidate agentUserId world now = .error message := by
  refine ⟨admitted.agents_nodup, fun world now next granted ran => ?_, fun world now => admitted.lapsed⟩
  obtain ⟨-, -, asked, read, permissions, current, first, second, third, -, held, narrowed, rfl⟩ := revalidate_ok ran
  obtain ⟨left, right⟩ := intersectPermissions_contained authority.ceiling current
  obtain ⟨-, within, checked⟩ := narrow_ok narrowed
  refine ⟨left, fun limit limited => left.trans (admitted.ceiling_scope limited), ?_, fun app member => ?_⟩
  · exact ⟨asked, permissions, by omega, by omega, held, right.trans within⟩
  · exact ((checked app member).bounded.of_contained right).widen (by omega) (by omega)

end Chains

/-! ## A delegated call that outlives its caller -/

section Delegation

/-- A human and two agents, the first of which may do no more than call the second. -/
def deskWorld : World Nat Unit where
  principalEnabled _ := true
  resolvePermissions uid := .ok (if uid = 1 then ["app:b:invoke"] else ["*"])
  validate _ _ _ := .ok ()
  ended _ := false

def deskAgent (app : Text) : Nat := if app = ['a'] then 1 else 2

def caller : AgentAuthority Nat Unit :=
  ⟨0, [['a']], ["app:b:invoke"], some ["*"], none, [7]⟩

def callee : AgentAuthority Nat Unit :=
  ⟨0, [['a'], ['b']], ["app:b:invoke"], some ["*"], none, [8, 7]⟩

theorem callee_admitted : Admitted deskAgent callee [callee, caller] (some ["*"]) := by
  have first : admitAgent deskAgent (fun _ => deskWorld) ['a'] (some 0) (some ["*"]) .direct 7 0 =
      .ok (caller, 5) := rfl
  have second : admitAgent deskAgent (fun _ => deskWorld) ['b'] (some 0) none (.child caller) 8 0 =
      .ok (callee, 9) := rfl
  have outer : ∀ parent, (AgentSource.direct : AgentSource Nat Unit) ≠ .child parent := by simp
  exact .child (.root outer first) second

theorem callee_confined :
    callee.revalidate deskAgent (fun _ => deskWorld) 0 = .ok (["app:b:invoke".toList], 8) ∧
      Contained ["app:b:invoke".toList] callee.ceiling ∧
      ∃ message, callee.revalidate deskAgent (fun _ => caller.finish deskWorld) 0 = .error message := by
  obtain ⟨-, within, lapsed⟩ := revalidate_confined callee_admitted
  have ran : callee.revalidate deskAgent (fun _ => deskWorld) 0 = .ok (["app:b:invoke".toList], 8) := rfl
  have ended : ∀ moment ≥ 0, caller.finished ((fun _ => caller.finish deskWorld) moment) = true := fun _ _ => rfl
  exact ⟨ran, (within _ _ _ _ ran).1, lapsed _ _ (.ended (by simp) ended)⟩

end Delegation

end RootCx.Authority
