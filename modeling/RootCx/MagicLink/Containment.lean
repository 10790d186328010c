import RootCx.Lib.Slots
import RootCx.MagicLink.Tokens

/-! # What a magic link gives

A link gives one session at most, to a consumer that began before it expired, and a
consumer that fails leaves nothing behind.  The roles that a link confers are roles of its
creator; what its address holds besides is not looked at.
-/

namespace RootCx.MagicLink

open RootCx.Text RootCx.Authority RootCx.Worklist List

variable {safeRedirect : Text → Bool} {s s' : State}

/-! ## Containment -/

/-- A permission that the roles of a link give was held by its creator, through a role that
    it was assigned or inherited. -/
def Token.Contained (token : Token) : Prop :=
  token.creator.isAdmin = false →
    (∀ role ∈ token.roles, role ∈ token.creator.roles) ∧
      ∀ permission ∈ (resolvePermissions token.creator.defs token.roles).2,
        ∃ held, Inherited token.creator.assigned token.creator.defs.inherits held ∧
          permission ∈ token.creator.defs.permissions held

variable {assigned : List Text} {index : Nat} {consume : Consume}

theorem resolvePermissions_roles {defs : RoleDefs} {role : Text}
    (mem : role ∈ (resolvePermissions defs assigned).1) : Inherited assigned defs.inherits role := by
  unfold resolvePermissions at mem
  split at mem
  · exact absurd mem not_mem_nil
  · exact inherited_of_mem_expandRoles mem

theorem resolvePermissions_permissions {defs : RoleDefs} {permission : Text}
    (mem : permission ∈ (resolvePermissions defs assigned).2) :
    ∃ role, Inherited assigned defs.inherits role ∧ permission ∈ defs.permissions role := by
  unfold resolvePermissions at mem
  split at mem
  · exact absurd mem not_mem_nil
  · obtain ⟨role, expanded, gives⟩ := mem_flatMap.mp mem
    exact ⟨role, inherited_of_mem_expandRoles expanded, gives⟩

theorem inherited_trans {roles : List Text} {roleMap : RoleMap} {role : Text}
    (held : ∀ other ∈ roles, Inherited assigned roleMap other) (inherited : Inherited roles roleMap role) :
    Inherited assigned roleMap role := by
  obtain ⟨root, mem, path⟩ := inherited
  obtain ⟨first, assigned, before⟩ := held root mem
  exact ⟨first, assigned, before.trans path⟩

theorem contained_ok {creator : Creator} {roles : List Text} (passed : contained creator roles = .ok ())
    (plain : creator.isAdmin = false) : ∀ role ∈ roles, role ∈ creator.roles := by
  unfold contained at passed
  rw [if_neg (Bool.eq_false_iff.mp plain)] at passed
  split at passed
  · cases passed
  · cases found : roles.find? (!creator.roles.elem ·) with
    | some role =>
      rw [found] at passed
      cases passed
    | none =>
      intro role mem
      have has := find?_eq_none.mp found role mem
      simpa using has

theorem Token.contained_of (token : Token) (passed : MagicLink.contained token.creator token.roles = .ok ()) :
    token.Contained := by
  intro plain
  have roles := contained_ok passed plain
  refine ⟨roles, fun permission mem => ?_⟩
  obtain ⟨role, inherited, gives⟩ := resolvePermissions_permissions mem
  exact ⟨role, inherited_trans (fun other confers => resolvePermissions_roles (roles other confers)) inherited, gives⟩

/-! ## The invariant -/

def Making.Passed : Making → Prop
  | .contained request creator | .declared request creator => MagicLink.contained creator request.roles = .ok ()
  | _ => True

structure Inv (s : State) : Prop where
  holders : ∀ (index : Nat) (consume : Consume), s.consumes[index]? = some consume → consume.holds = true →
    ∃ token, s.store.tokens[consume.token]? = some token ∧ token.consumed = false ∧ consume.began < token.expiresAt
  single : ∀ (index other : Nat) (consume consume' : Consume), s.consumes[index]? = some consume →
    s.consumes[other]? = some consume' → consume.holds = true → consume'.holds = true → consume.token = consume'.token →
      index = other
  sessions : ∀ session ∈ s.store.sessions, ∃ token, s.store.tokens[session.token]? = some token ∧ token.consumed = true ∧
    session.began < token.expiresAt
  once : (s.store.sessions.map (·.token)).Nodup
  makings : ∀ making ∈ s.makings, making.Passed
  tokens : ∀ token ∈ s.store.tokens, contained token.creator token.roles = .ok ()
  assigned : ∀ row ∈ s.store.assignments, ∀ index, row.source = .link index →
    ∃ token, s.store.tokens[index]? = some token ∧ row.role ∈ token.roles

/-! ## Consumers -/

theorem tokenHeld_iff {token : Nat} :
    s.tokenHeld token = true ↔ ∃ (index : Nat) (consume : Consume), s.consumes[index]? = some consume ∧ consume.holds = true ∧ consume.token = token := by
  simp only [State.tokenHeld, any_eq_true, Bool.and_eq_true, decide_eq_true_eq, mem_iff_getElem?]
  constructor
  · rintro ⟨consume, ⟨index, found⟩, holds⟩
    exact ⟨index, consume, found, holds⟩
  · rintro ⟨index, consume, found, holds⟩
    exact ⟨consume, ⟨index, found⟩, holds⟩

/-- A consumer goes on and keeps what it holds, or takes a token that nobody holds, or lets
    go of it. -/
theorem Inv.progress (inv : Inv s) (found : s.consumes[index]? = some consume) (progress : Progress)
    (held : Consume.holds { consume with progress := progress } = true → consume.holds = true ∨
      s.tokenHeld consume.token = false ∧
        ∃ token, s.store.tokens[consume.token]? = some token ∧ token.consumed = false ∧ consume.began < token.expiresAt) :
    Inv (s.setConsume index consume progress) where
  holders place other there holds := by
    obtain ⟨-, rfl⟩ | ⟨-, there⟩ := (Slots.set_iff found).mp there
    · obtain before | ⟨-, fits⟩ := held holds
      · exact inv.holders index consume found before
      · exact fits
    · exact inv.holders place other there holds
  single := by
    have apart {j : Nat} {other : Consume} (there : s.consumes[j]? = some other) (holds : other.holds = true)
        (mine : Consume.holds { consume with progress := progress } = true) (same : consume.token = other.token) : index = j := by
      obtain before | ⟨free, -⟩ := held mine
      · exact inv.single index j consume other found there before holds same
      · exact absurd (tokenHeld_iff.mpr ⟨j, other, there, holds, same.symm⟩) (Bool.eq_false_iff.mp free)
    intro i j first second foundFirst foundSecond holdsFirst holdsSecond same
    obtain ⟨atFirst, isFirst⟩ | ⟨-, wasFirst⟩ := (Slots.set_iff found).mp foundFirst
    · obtain ⟨atSecond, -⟩ | ⟨-, wasSecond⟩ := (Slots.set_iff found).mp foundSecond
      · exact atFirst.trans atSecond.symm
      · rw [isFirst] at holdsFirst same
        exact atFirst.trans (apart wasSecond holdsSecond holdsFirst same)
    · obtain ⟨atSecond, isSecond⟩ | ⟨-, wasSecond⟩ := (Slots.set_iff found).mp foundSecond
      · rw [isSecond] at holdsSecond same
        exact (atSecond.trans (apart wasFirst holdsFirst holdsSecond same.symm)).symm
      · exact inv.single i j first second wasFirst wasSecond holdsFirst holdsSecond same
  sessions := inv.sessions
  once := inv.once
  makings := inv.makings
  tokens := inv.tokens
  assigned := inv.assigned

theorem mem_addAssignment {rows : List Assignment} {row other : Assignment} (mem : other ∈ State.addAssignment rows row) :
    other ∈ rows ∨ other = row := by
  unfold State.addAssignment at mem
  split at mem
  · exact .inl mem
  · simpa using mem

theorem mem_addAssignments {user : Nat} {source : Source} (roles : List Text) {rows : List Assignment} {row : Assignment}
    (mem : row ∈ roles.foldl (fun rows role => State.addAssignment rows ⟨user, role, source⟩) rows) :
    row ∈ rows ∨ row.role ∈ roles ∧ row.source = source := by
  induction roles generalizing rows with
  | nil => exact .inl mem
  | cons role rest ih =>
    obtain before | ⟨later, same⟩ := ih mem
    · obtain older | rfl := mem_addAssignment before
      · exact .inl older
      · exact .inr ⟨mem_cons_self, rfl⟩
    · exact .inr ⟨mem_cons_of_mem _ later, same⟩

/-- The commit of a consumer: its token is consumed, and nobody else held it. -/
theorem Inv.commit (inv : Inv s) {user : Consumer} {token : Token} (found : s.consumes[index]? = some consume)
    (ready : consume.progress = .ready user) (named : s.store.tokens[consume.token]? = some token) :
    Inv { s.setConsume index consume .ended with store := s.committed consume token user } := by
  have holds : consume.holds = true := by rw [Consume.holds, ready]
  obtain ⟨same, there, fresh, timely⟩ := inv.holders index consume found holds
  cases named.symm.trans there
  have ended := inv.progress found .ended (fun holds => nomatch holds)
  have place {at' : Nat} {other : Token} :
      (s.store.tokens.set consume.token { token with consumed := true })[at']? = some other ↔
        at' = consume.token ∧ other = { token with consumed := true } ∨ at' ≠ consume.token ∧ s.store.tokens[at']? = some other :=
    Slots.set_iff named
  -- a token keeps its roles, its creator and its expiry
  have kept {at' : Nat} {old : Token} (was : s.store.tokens[at']? = some old) :
      ∃ new, (s.store.tokens.set consume.token { token with consumed := true })[at']? = some new ∧ new.roles = old.roles ∧
        new.expiresAt = old.expiresAt ∧ (old.consumed = true → new.consumed = true) := by
    by_cases here : at' = consume.token
    · obtain rfl := here
      cases named.symm.trans was
      exact ⟨_, place.mpr (.inl ⟨rfl, rfl⟩), rfl, rfl, fun _ => rfl⟩
    · exact ⟨old, place.mpr (.inr ⟨here, was⟩), rfl, rfl, id⟩
  refine ⟨?_, ended.single, ?_, ?_, inv.makings, ?_, ?_⟩
  · intro j other there' holds'
    obtain ⟨-, rfl⟩ | ⟨apart, there'⟩ := (Slots.set_iff found).mp there'
    · cases holds'
    · have differs : other.token ≠ consume.token := by
        intro same
        exact apart (inv.single j index other consume there' found holds' holds same)
      obtain ⟨old, was, fits⟩ := inv.holders j other there' holds'
      exact ⟨old, place.mpr (.inr ⟨differs, was⟩), fits⟩
  · intro session mem
    obtain older | new := mem_append.mp mem
    · obtain ⟨old, was, consumed, before⟩ := inv.sessions session older
      obtain ⟨new, now, -, expires, still⟩ := kept was
      exact ⟨new, now, still consumed, expires ▸ before⟩
    · obtain rfl := mem_singleton.mp new
      exact ⟨_, place.mpr (.inl ⟨rfl, rfl⟩), rfl, timely⟩
  · change ((s.store.sessions ++ [Session.mk (s.userIndex user) consume.token consume.began]).map (·.token)).Nodup
    rw [map_append, nodup_append]
    refine ⟨inv.once, by simp, ?_⟩
    intro used mem other single
    obtain rfl := mem_singleton.mp single
    obtain ⟨session, inside, rfl⟩ := mem_map.mp mem
    intro same
    -- a token with a session is consumed, and this one is not
    obtain ⟨old, was, consumed, -⟩ := inv.sessions session inside
    rw [same] at was
    cases named.symm.trans was
    exact nomatch fresh.symm.trans consumed
  · intro other mem
    obtain ⟨at', found'⟩ := mem_iff_getElem?.mp mem
    obtain ⟨rfl, rfl⟩ | ⟨-, was⟩ := place.mp found'
    · exact inv.tokens token (mem_of_getElem? named)
    · exact inv.tokens other (mem_of_getElem? was)
  · intro row mem at' source
    obtain older | ⟨role, same⟩ := mem_addAssignments token.roles mem
    · obtain ⟨old, was, confers⟩ := inv.assigned row older at' source
      obtain ⟨new, now, roles, -⟩ := kept was
      exact ⟨new, now, roles ▸ confers⟩
    · obtain rfl := Source.link.inj (source.symm.trans same)
      exact ⟨_, place.mpr (.inl ⟨rfl, rfl⟩), role⟩

theorem Inv.advanceConsume (inv : Inv s) (found : s.consumes[index]? = some consume)
    (advanced : s.advanceConsume index consume = some s') : Inv s' := by
  unfold State.advanceConsume at advanced
  cases progress : consume.progress with
  | opened =>
    simp only [progress] at advanced
    split at advanced
    · cases advanced
    · next free =>
      split at advanced
      · next fits =>
        cases advanced
        apply inv.progress found
        intro _
        obtain ⟨token, there, open'⟩ := Option.any_eq_true _ _ |>.mp fits
        rw [Bool.and_eq_true, Bool.not_eq_true', decide_eq_true_eq] at open'
        exact .inr ⟨Bool.eq_false_iff.mpr free, token, there, open'⟩
      · cases advanced
        exact inv.progress found .ended (fun holds => nomatch holds)
  | claimed =>
    simp only [progress] at advanced
    obtain ⟨email, -, rfl⟩ := Option.map_eq_some_iff.mp advanced
    split <;> exact inv.progress found _ fun _ => .inl (by rw [Consume.holds, progress])
  | inserting =>
    simp only [progress] at advanced
    obtain ⟨email, -, advanced⟩ := Option.bind_eq_some_iff.mp advanced
    split at advanced
    · cases advanced
    · split at advanced
      · cases advanced
        exact inv.progress found .ended (fun holds => nomatch holds)
      · cases advanced
        exact inv.progress found _ fun _ => .inl (by rw [Consume.holds, progress])
  | known user =>
    simp only [progress] at advanced
    cases advanced
    exact inv.progress found _ fun _ => .inl (by rw [Consume.holds, progress])
  | assigned user =>
    simp only [progress] at advanced
    cases advanced
    exact inv.progress found _ fun _ => .inl (by rw [Consume.holds, progress])
  | ready user =>
    simp only [progress] at advanced
    obtain ⟨token, named, rfl⟩ := Option.map_eq_some_iff.mp advanced
    exact inv.commit found progress named
  | ended =>
    simp only [progress] at advanced
    cases advanced

/-! ## The other parties -/

/-- What does not touch the consumers keeps the invariant, as long as it only adds tokens
    that passed and assignments that no link made. -/
theorem Inv.beside (inv : Inv s) (consumes : s'.consumes = s.consumes) (sessions : s'.store.sessions = s.store.sessions)
    (makings : ∀ making ∈ s'.makings, making.Passed) {added : List Token}
    (tokens : s'.store.tokens = s.store.tokens ++ added)
    (passed : ∀ token ∈ added, contained token.creator token.roles = .ok ())
    (assigned : ∀ row ∈ s'.store.assignments, row ∈ s.store.assignments ∨ row.source = .other) : Inv s' := by
  have kept {index : Nat} {token : Token} (was : s.store.tokens[index]? = some token) :
      s'.store.tokens[index]? = some token := by
    rw [tokens, getElem?_append_left (List.getElem?_eq_some_iff.mp was).1]
    exact was
  refine ⟨?_, ?_, ?_, sessions ▸ inv.once, makings, ?_, ?_⟩
  · intro index consume found holds
    obtain ⟨token, was, fits⟩ := inv.holders index consume (consumes ▸ found) holds
    exact ⟨token, kept was, fits⟩
  · intro i j first second foundFirst foundSecond
    exact inv.single i j first second (consumes ▸ foundFirst) (consumes ▸ foundSecond)
  · intro session mem
    obtain ⟨token, was, fits⟩ := inv.sessions session (sessions ▸ mem)
    exact ⟨token, kept was, fits⟩
  · intro token mem
    rw [tokens] at mem
    exact (mem_append.mp mem).elim (inv.tokens token) (passed token)
  · intro row mem index source
    obtain older | other := assigned row mem
    · obtain ⟨token, was, confers⟩ := inv.assigned row older index source
      exact ⟨token, kept was, confers⟩
    · exact nomatch other.symm.trans source

theorem Inv.setMaking (inv : Inv s) (index : Nat) {making : Making} (passed : making.Passed) : Inv (s.setMaking index making) := by
  have makings : ∀ other ∈ (s.setMaking index making).makings, other.Passed := by
    intro other mem
    obtain older | rfl := mem_or_eq_of_mem_set mem
    · exact inv.makings other older
    · exact passed
  exact inv.beside rfl rfl makings (append_nil _).symm (fun _ mem => absurd mem not_mem_nil) fun _ => .inl

theorem Inv.advanceMaking (inv : Inv s) {making : Making} (found : s.makings[index]? = some making)
    (advanced : s.advanceMaking safeRedirect index making = some s') : Inv s' := by
  have passed := inv.makings making (mem_of_getElem? found)
  cases making with
  | requested request =>
    simp only [State.advanceMaking] at advanced
    split at advanced
    · cases advanced
      exact inv.setMaking index trivial
    · cases advanced
      exact inv.setMaking index trivial
  | assigned request names =>
    simp only [State.advanceMaking] at advanced
    split at advanced
    · cases advanced
      exact inv.setMaking index trivial
    · next contained =>
      cases advanced
      exact inv.setMaking index contained
  | contained request creator =>
    simp only [State.advanceMaking] at advanced
    split at advanced
    · cases advanced
      exact inv.setMaking index passed
    · cases advanced
      exact inv.setMaking index trivial
  | declared request creator =>
    cases advanced
    refine inv.beside rfl rfl ?_ rfl ?_ fun _ => .inl
    · intro other mem
      obtain older | rfl := mem_or_eq_of_mem_set mem
      · exact inv.makings other older
      · trivial
    · intro token single
      obtain rfl := mem_singleton.mp single
      exact passed
  | ended => cases advanced

theorem Inv.step {action : Action} (inv : Inv s) (stepped : step safeRedirect s action = some s') : Inv s' := by
  have nothing : ∀ token ∈ ([] : List Token), contained token.creator token.roles = .ok () :=
    fun _ mem => absurd mem not_mem_nil
  cases action with
  | tick seconds =>
    cases stepped
    exact inv.beside rfl rfl inv.makings (append_nil _).symm nothing fun _ => .inl
  | setRoles defs =>
    cases stepped
    exact inv.beside rfl rfl inv.makings (append_nil _).symm nothing fun _ => .inl
  | assign user role =>
    cases stepped
    refine inv.beside rfl rfl inv.makings (append_nil _).symm nothing fun row mem => ?_
    obtain older | rfl := mem_addAssignment mem
    · exact .inl older
    · exact .inr rfl
  | unassign user role =>
    cases stepped
    exact inv.beside rfl rfl inv.makings (append_nil _).symm nothing fun _ mem => .inl (mem_filter.mp mem).1
  | provision email =>
    change (if _ then none else some _) = some s' at stepped
    split at stepped
    · cases stepped
    · cases stepped
      exact inv.beside rfl rfl inv.makings (append_nil _).symm nothing fun _ => .inl
  | generate request =>
    cases stepped
    refine inv.beside rfl rfl ?_ (append_nil _).symm nothing fun _ => .inl
    intro making mem
    obtain older | new := mem_append.mp mem
    · exact inv.makings making older
    · obtain rfl := mem_singleton.mp new
      trivial
  | advanceMaking index =>
    obtain ⟨making, found, advanced⟩ := Option.bind_eq_some_iff.mp stepped
    exact inv.advanceMaking found advanced
  | failMaking index =>
    obtain ⟨making, found, rfl⟩ := Option.map_eq_some_iff.mp stepped
    exact inv.setMaking index trivial
  | consume token =>
    cases stepped
    have older {index : Nat} {consume : Consume} (found : (s.consumes ++ [⟨token, s.now, .opened⟩])[index]? = some consume)
        (holds : consume.holds = true) : s.consumes[index]? = some consume := by
      obtain ⟨-, rfl⟩ | older := Slots.concat_iff.mp found
      · cases holds
      · exact older
    refine ⟨?_, ?_, inv.sessions, inv.once, inv.makings, inv.tokens, inv.assigned⟩
    · exact fun index consume found holds => inv.holders index consume (older found holds) holds
    · intro i j first second foundFirst foundSecond holdsFirst holdsSecond
      exact inv.single i j first second (older foundFirst holdsFirst) (older foundSecond holdsSecond) holdsFirst holdsSecond
  | advanceConsume index =>
    obtain ⟨consume, found, advanced⟩ := Option.bind_eq_some_iff.mp stepped
    exact inv.advanceConsume found advanced
  | failConsume index =>
    obtain ⟨consume, found, rfl⟩ := Option.map_eq_some_iff.mp stepped
    exact inv.progress found .ended (fun holds => nomatch holds)

/-! ## Runs -/

/-- No link has been made. -/
structure State.Start (s : State) : Prop where
  tokens : s.store.tokens = []
  sessions : s.store.sessions = []
  idle : s.makings = [] ∧ s.consumes = []
  assigned : ∀ row ∈ s.store.assignments, row.source = .other

theorem State.Start.inv (start : s.Start) : Inv s := by
  obtain ⟨tokens, sessions, ⟨makings, consumes⟩, assigned⟩ := start
  refine ⟨?_, ?_, ?_, ?_, ?_, ?_, ?_⟩
  · simp [consumes]
  · simp [consumes]
  · simp [sessions]
  · simp [sessions]
  · simp [makings]
  · simp [tokens]
  · exact fun row mem index source => nomatch (assigned row mem).symm.trans source

/-- A consumer's step writes everything at once, or nothing; then, where it is its last one,
    the token can be used again. -/
inductive Atomic (s : State) (index : Nat) (consume : Consume) (next : State) : Prop where
  | committed {token user} (ready : consume.progress = .ready user) (named : s.store.tokens[consume.token]? = some token)
    (store : next.store = s.committed consume token user)
  | nothing (store : next.store = s.store)
    (usable : consume.holds = true → next.consumes[index]?.any (·.progress = .ended) = true →
      next.tokenHeld consume.token = false ∧ ∃ token, next.store.tokens[consume.token]? = some token ∧ token.consumed = false)

/-- What links promise. -/
structure State.Upheld (s : State) : Prop where
  once : (s.store.sessions.map (·.token)).Nodup
  timely : ∀ session ∈ s.store.sessions, ∃ token, s.store.tokens[session.token]? = some token ∧ session.began < token.expiresAt
  conferred : ∀ row ∈ s.store.assignments, ∀ index, row.source = .link index →
    ∃ token, s.store.tokens[index]? = some token ∧ row.role ∈ token.roles
  contained : ∀ token ∈ s.store.tokens, token.Contained
  atomic : ∀ (index : Nat) (consume : Consume) (next : State), s.consumes[index]? = some consume →
    s.advanceConsume index consume = some next ∨ next = s.setConsume index consume .ended → Atomic s index consume next

theorem Inv.released (inv : Inv s) (found : s.consumes[index]? = some consume) (holds : consume.holds = true) :
    (s.setConsume index consume .ended).tokenHeld consume.token = false := by
  apply Bool.eq_false_iff.mpr
  intro held
  obtain ⟨other, consume', there, still, same⟩ := tokenHeld_iff.mp held
  obtain ⟨-, rfl⟩ | ⟨apart, was⟩ := (Slots.set_iff found).mp there
  · cases still
  · exact apart (inv.single other index consume' consume was found still holds same)

theorem Inv.atomic (inv : Inv s) {next : State} (found : s.consumes[index]? = some consume)
    (stepped : s.advanceConsume index consume = some next ∨ next = s.setConsume index consume .ended) :
    Atomic s index consume next := by
  have last : Atomic s index consume (s.setConsume index consume .ended) := by
    refine .nothing rfl fun holds _ => ⟨inv.released found holds, ?_⟩
    obtain ⟨token, there, unused, -⟩ := inv.holders index consume found holds
    exact ⟨token, there, unused⟩
  have going (progress : Progress) (goes : progress ≠ .ended) : Atomic s index consume (s.setConsume index consume progress) := by
    refine .nothing rfl fun _ ended => ?_
    have now : (s.setConsume index consume progress).consumes[index]? = some { consume with progress := progress } :=
      Slots.set_self found
    rw [now] at ended
    exact absurd (of_decide_eq_true ended) goes
  obtain advanced | rfl := stepped
  · unfold State.advanceConsume at advanced
    cases progress : consume.progress with
    | opened =>
      simp only [progress] at advanced
      split at advanced
      · cases advanced
      · split at advanced
        · cases advanced
          exact going .claimed nofun
        · cases advanced
          exact last
    | claimed =>
      simp only [progress] at advanced
      obtain ⟨email, -, rfl⟩ := Option.map_eq_some_iff.mp advanced
      split <;> exact going _ nofun
    | inserting =>
      simp only [progress] at advanced
      obtain ⟨email, -, advanced⟩ := Option.bind_eq_some_iff.mp advanced
      split at advanced
      · cases advanced
      · split at advanced
        · cases advanced
          exact last
        · cases advanced
          exact going _ nofun
    | known user =>
      simp only [progress] at advanced
      cases advanced
      exact going _ nofun
    | assigned user =>
      simp only [progress] at advanced
      cases advanced
      exact going _ nofun
    | ready user =>
      simp only [progress] at advanced
      obtain ⟨token, named, rfl⟩ := Option.map_eq_some_iff.mp advanced
      exact .committed progress named rfl
    | ended =>
      simp only [progress] at advanced
      cases advanced
  · exact last

theorem Inv.upheld (inv : Inv s) : s.Upheld where
  once := inv.once
  timely session mem := by
    obtain ⟨token, there, -, before⟩ := inv.sessions session mem
    exact ⟨token, there, before⟩
  conferred := inv.assigned
  contained token mem := token.contained_of (inv.tokens token mem)
  atomic _ _ _ found stepped := inv.atomic found stepped

/-- In every run, whatever fails in it, links keep what they promise. -/
theorem links_upheld (safeRedirect : Text → Bool) {s last : State} {actions : List Action} (start : s.Start)
    (ran : Runs.run (step safeRedirect) s actions = some last) : last.Upheld := by
  have inv : Inv last := Runs.run_invariant (fun inv stepped => Inv.step inv stepped) start.inv ran
  exact inv.upheld

/-! Bob may invite people, and makes a link for the address of Ann, who is an administrator. -/

def officeRoles : RoleDefs where
  inherits := ⟨[⟨"admin", []⟩, ⟨"inviter", []⟩], by simp [List.NodupKeys, keys]⟩
  permissions role := if role = "admin" then ["*"] else if role = "inviter" then ["auth.invite"] else []

def office : State where
  store :=
    { users := ["ann@example.com", "bob@example.com"]
      assignments := [⟨0, "admin", .other⟩, ⟨1, "inviter", .other⟩]
      defs := officeRoles
      tokens := []
      sessions := [] }
  now := 0
  makings := []
  consumes := []

theorem office_start : office.Start := ⟨rfl, rfl, ⟨rfl, rfl⟩, by decide⟩

/-- All but the last step of the consumer, for a user that there is. -/
def linkFor (email : String) (roles : List Text) : List Action :=
  [.generate ⟨1, email.toList, roles, none, none⟩, .advanceMaking 0, .advanceMaking 0, .advanceMaking 0, .advanceMaking 0,
    .consume 0, .advanceConsume 0, .advanceConsume 0, .advanceConsume 0, .advanceConsume 0]

/-- A new colleague gets the role of Bob, once. -/
def colleague : List Action :=
  linkFor "eve@example.com" ["inviter"] ++ [Action.advanceConsume 0, Action.advanceConsume 0]

theorem colleague_upheld : ∃ last, Runs.run (step fun _ => true) office colleague = some last ∧
    last.store.sessions = [⟨2, 0, 0⟩] ∧ last.Upheld := by
  have read : (Runs.run (step fun _ => true) office colleague).map (·.store.sessions) = some [⟨2, 0, 0⟩] := by decide +kernel
  obtain ⟨last, ran, sessions⟩ := Option.map_eq_some_iff.mp read
  exact ⟨last, ran, sessions, links_upheld _ office_start ran⟩

/-- A session that a step gives, by a link of no administrator, carries no permission that
    the creator of the link did not hold. -/
def Confined (before after : State) : Prop :=
  ∀ session ∈ after.store.sessions, session ∉ before.store.sessions →
    ∀ token ∈ after.store.tokens[session.token]?, token.creator.isAdmin = false →
      ∀ permission ∈ (resolvePermissions after.store.defs (after.store.assignedTo session.user)).2,
        permission ∈ token.creator.permissions

instance (before after : State) : Decidable (Confined before after) := by
  unfold Confined
  infer_instance

/-- The session is Ann's, with every permission of hers. -/
theorem session_of_ann : ¬∀ (safeRedirect : Text → Bool) (s before after : State) (actions : List Action) (index : Nat),
    s.Start → Runs.run (step safeRedirect) s actions = some before →
      step safeRedirect before (.advanceConsume index) = some after → Confined before after := by
  intro confined
  have read : (Runs.run (step fun _ => true) office (linkFor "ann@example.com" [])).any (fun before =>
      (step (fun _ => true) before (.advanceConsume 0)).any fun after => !decide (Confined before after)) = true := by
    decide +kernel
  obtain ⟨before, ran, stepped⟩ := (Option.any_eq_true _ _).mp read
  obtain ⟨after, stepped, broken⟩ := (Option.any_eq_true _ _).mp stepped
  rw [Bool.not_eq_true', decide_eq_false_iff_not] at broken
  exact broken (confined _ office before after _ 0 office_start ran stepped)

end RootCx.MagicLink
