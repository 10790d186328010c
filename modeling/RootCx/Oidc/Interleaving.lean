import RootCx.Lib.Slots
import RootCx.Oidc.Logins

/-! # Interleaved logins

A run of undisturbed logins keeps identities and users apart, gives every registered
user a role before it is answered, and promotes one of them at most.  The invariant
says what each login holds between two of its statements: a registration is unfinished
only while a login is in the middle of it, and one login at most is about to promote.
-/

namespace RootCx.Oidc

open RootCx.Text List Option

variable {s s' : State}

variable {user : Nat} {identity : Identity} {f : User → User}

/-! ## Look-ups -/

theorem linkOf_lt (linked : s.linkOf user = some identity) : user < s.users.length := by
  obtain ⟨row, found, -⟩ := bind_eq_some_iff.mp linked
  exact (List.getElem?_eq_some_iff.mp found).1

theorem linkOf_of_userOf (found : s.userOf identity = some user) : s.linkOf user = some identity := by
  obtain ⟨bound, holds, -⟩ := findIdx?_eq_some_iff_getElem.mp found
  rw [State.linkOf, getElem?_eq_getElem bound, bind_some]
  exact of_decide_eq_true holds

theorem not_linkOf_of_userOf (found : s.userOf identity = none) : s.linkOf user ≠ some identity := by
  intro linked
  obtain ⟨row, place, same⟩ := bind_eq_some_iff.mp linked
  have other := findIdx?_eq_none_iff.mp found row (mem_of_getElem? place)
  exact of_decide_eq_false other same

theorem provisioned_free {email : Text} (found : s.provisioned email = some user) :
    user < s.users.length ∧ s.linkOf user = none := by
  obtain ⟨bound, holds, -⟩ := findIdx?_eq_some_iff_getElem.mp found
  refine ⟨bound, ?_⟩
  rw [State.linkOf, getElem?_eq_getElem bound, bind_some]
  exact of_decide_eq_true (Bool.and_eq_true_iff.mp holds).2

/-! ## The tables -/

structure Tables (s : State) : Prop where
  distinct : ∀ user other identity, s.linkOf user = some identity → s.linkOf other = some identity → user = other
  linked : ∀ identity user, (identity, user) ∈ s.links ↔ s.linkOf user = some identity
  served : ∀ row ∈ s.served, row ∈ s.links
  assigned : ∀ identity user, (identity, user) ∈ s.served → user ∈ s.created → s.hasRole user = true
  created : ∀ user ∈ s.created, ∃ row, s.users[user]? = some row ∧ row.isSystem = false ∧ row.identity ≠ none
  promoted : s.promoted = [] ∨ s.promoted.length = 1 ∧ s.isFirstBoot = false

theorem Tables.taken (tables : Tables s) (free : s.identityTaken identity user = false) {other : Nat}
    (linked : s.linkOf other = some identity) : other = user := by
  unfold State.identityTaken at free
  cases found : s.userOf identity with
  | none => exact absurd linked (not_linkOf_of_userOf found)
  | some holder =>
    rw [found] at free
    have same : holder = user := by simpa using free
    exact same ▸ tables.distinct other holder identity linked (linkOf_of_userOf found)

section Linking

variable {link : Nat → Option Identity}

/-- A user gets an identity that no other user has. -/
theorem Tables.distinct_link (tables : Tables s) (free : s.identityTaken identity user = false)
    (links : ∀ other, link other = if other = user then some identity else s.linkOf other) (one two : Nat) (shared : Identity)
    (first : link one = some shared) (second : link two = some shared) : one = two := by
  rw [links] at first second
  split at first
  · next here =>
    cases first
    split at second
    · next also => exact here.trans also.symm
    · next other => exact absurd (tables.taken free second) other
  · next other =>
    split at second
    · cases second
      exact absurd (tables.taken free first) other
    · exact tables.distinct one two shared first second

theorem Tables.linked_link (tables : Tables s)
    (links : ∀ other, link other = if other = user then some identity else s.linkOf other)
    (before : ∀ old, s.linkOf user = some old → old = identity) (one : Identity) (other : Nat) :
    (one, other) ∈ (identity, user) :: s.links ↔ link other = some one := by
  rw [links, mem_cons, tables.linked]
  by_cases same : other = user
  · obtain rfl := same
    rw [if_pos rfl]
    constructor
    · rintro (here | linked)
      · rw [(Prod.mk.inj here).1]
      · rw [before one linked]
    · intro here
      exact .inl (by rw [some.inj here])
  · rw [if_neg same]
    constructor
    · rintro (here | linked)
      · exact absurd (Prod.mk.inj here).2 same
      · exact linked
    · exact .inr

end Linking

theorem Tables.bound (tables : Tables s) (mem : user ∈ s.created) : user < s.users.length := by
  obtain ⟨row, found, -⟩ := tables.created user mem
  exact (List.getElem?_eq_some_iff.mp found).1

theorem Tables.link (tables : Tables s) {user : Nat} (mem : user ∈ s.created) : s.linkOf user ≠ none := by
  obtain ⟨row, found, -, identity⟩ := tables.created user mem
  rw [State.linkOf, found, bind_some]
  exact identity

/-! ## What a login holds -/

def LoginInv (s : State) (login : Login) : Prop :=
  match login.stage with
  | .refreshing user => (login.identity, user) ∈ s.links ∧ (user ∈ s.created → s.hasRole user = true)
  | .linking user => user < s.users.length ∧ user ∉ s.created
  | .checking user | .resolving user _ | .assigning user _ _ => user ∈ s.created ∧ (login.identity, user) ∈ s.links
  | _ => True

structure Inv (s : State) : Prop where
  tables : Tables s
  logins : ∀ (index : Nat) (login : Login), s.logins[index]? = some login → LoginInv s login
  registered : ∀ user ∈ s.created, s.hasRole user = true ∨
    ∃ (index : Nat) (login : Login), s.logins[index]? = some login ∧ login.registering = some user
  alone : ∀ (index other : Nat) (login login' : Login), s.logins[index]? = some login → s.logins[other]? = some login' →
    login.promotes = true → login'.promotes = true → index = other
  fresh : ∀ (index : Nat) (login : Login), s.logins[index]? = some login → login.promotes = true → s.promoted = []

/-- What every statement keeps of the tables. -/
structure Frame (s s' : State) : Prop where
  links : ∀ row ∈ s.links, row ∈ s'.links
  created : ∀ user ∈ s.created, user ∈ s'.created
  older : ∀ user, user < s.users.length → user ∈ s'.created → user ∈ s.created
  users : s.users.length ≤ s'.users.length
  roles : ∀ user, s.hasRole user = true → s'.hasRole user = true

theorem LoginInv.frame {login : Login} (own : LoginInv s login) (tables : Tables s) (frame : Frame s s') : LoginInv s' login := by
  unfold LoginInv at own ⊢
  split <;> simp only [*] at own
  · next user stage =>
    refine ⟨frame.links _ own.1, fun mem => frame.roles _ (own.2 (frame.older _ ?_ mem))⟩
    exact linkOf_lt ((tables.linked _ _).mp own.1)
  · next user stage =>
    exact ⟨Nat.lt_of_lt_of_le own.1 frame.users, fun mem => own.2 (frame.older _ own.1 mem)⟩
  all_goals first
    | exact ⟨frame.created _ own.1, frame.links _ own.2⟩
    | trivial

/-- How a statement of one login changes the others. -/
structure Turn (s s' : State) (index : Nat) (login login' : Login) : Prop where
  found : s.logins[index]? = some login
  logins : s'.logins = s.logins.set index login'
  frame : Frame s s'
  tables : Tables s'
  own : LoginInv s' login'
  /-- A registration goes on, or has got its role. -/
  finished : ∀ user, login.registering = some user → login'.registering = some user ∨ s'.hasRole user = true
  began : ∀ user ∈ s'.created, user ∈ s.created ∨ login'.registering = some user
  promotes : login'.promotes = true → login.promotes = true ∨
    s.promoted = [] ∧ ∀ other ∈ s.logins, other.promotes = false
  promoted : s'.promoted = s.promoted ∨ login.promotes = true ∧ login'.promotes = false

variable {index : Nat} {login login' : Login}

theorem Turn.inv (turn : Turn s s' index login login') (inv : Inv s) : Inv s' := by
  have place {j : Nat} {other : Login} : (s.logins.set index login')[j]? = some other ↔
      j = index ∧ other = login' ∨ j ≠ index ∧ s.logins[j]? = some other := Slots.set_iff turn.found
  rw [← turn.logins] at place
  refine ⟨turn.tables, ?_, ?_, ?_, ?_⟩
  · intro j other found
    obtain ⟨-, rfl⟩ | ⟨-, found⟩ := place.mp found
    · exact turn.own
    · exact (inv.logins j other found).frame inv.tables turn.frame
  · intro user mem
    obtain older | new := turn.began user mem
    · obtain role | ⟨j, other, found, registers⟩ := inv.registered user older
      · exact .inl (turn.frame.roles user role)
      · by_cases same : j = index
        · subst same
          cases turn.found.symm.trans found
          obtain still | role := turn.finished user registers
          · exact .inr ⟨j, login', place.mpr (.inl ⟨rfl, rfl⟩), still⟩
          · exact .inl role
        · exact .inr ⟨j, other, place.mpr (.inr ⟨same, found⟩), registers⟩
    · exact .inr ⟨index, login', place.mpr (.inl ⟨rfl, rfl⟩), new⟩
  · -- the login at `index` promotes only if it did, or if no other one does
    have only : ∀ (j : Nat) (other : Login), j ≠ index → s.logins[j]? = some other → other.promotes = true → login'.promotes = true → False := by
      intro j other differs found promotes also
      obtain did | ⟨-, none'⟩ := turn.promotes also
      · exact differs (inv.alone j index other login found turn.found promotes did)
      · exact nomatch (none' other (mem_of_getElem? found)).symm.trans promotes
    intro i j first second foundFirst foundSecond promotesFirst promotesSecond
    obtain ⟨rfl, rfl⟩ | ⟨apart, foundFirst⟩ := place.mp foundFirst
    · obtain ⟨rfl, -⟩ | ⟨differs, foundSecond⟩ := place.mp foundSecond
      · rfl
      · exact (only j second differs foundSecond promotesSecond promotesFirst).elim
    · obtain ⟨rfl, rfl⟩ | ⟨-, foundSecond⟩ := place.mp foundSecond
      · exact (only i first apart foundFirst promotesFirst promotesSecond).elim
      · exact inv.alone i j first second foundFirst foundSecond promotesFirst promotesSecond
  · intro j other found promotes
    obtain ⟨rfl, rfl⟩ | ⟨differs, found⟩ := place.mp found
    · obtain same | ⟨-, ends⟩ := turn.promoted
      · obtain did | ⟨empty, -⟩ := turn.promotes promotes
        · exact same.trans (inv.fresh j login turn.found did)
        · exact same.trans empty
      · exact nomatch ends.symm.trans promotes
    · obtain same | ⟨did, -⟩ := turn.promoted
      · exact same.trans (inv.fresh j other found promotes)
      · exact absurd (inv.alone j index other login found turn.found promotes did) differs

/-! ## The statements -/

theorem turn_stage (inv : Inv s) (found : s.logins[index]? = some login) (stage : Stage)
    (own : LoginInv s { login with stage := stage })
    (finished : ∀ user, login.registering = some user → Login.registering { login with stage := stage } = some user)
    (promotes : Login.promotes { login with stage := stage } = true → login.promotes = true ∨
      s.promoted = [] ∧ ∀ other ∈ s.logins, other.promotes = false) :
    Turn s (s.setStage index login stage) index login { login with stage := stage } where
  found := found
  logins := rfl
  frame := ⟨fun _ mem => mem, fun _ mem => mem, fun _ _ mem => mem, le_rfl, fun _ role => role⟩
  tables :=
    { distinct := inv.tables.distinct
      linked := inv.tables.linked
      served := inv.tables.served
      assigned := inv.tables.assigned
      created := inv.tables.created
      promoted := inv.tables.promoted }
  own := own
  finished user registers := .inl (finished user registers)
  began _ mem := .inl mem
  promotes := promotes
  promoted := .inl rfl

theorem turn_end (inv : Inv s) (found : s.logins[index]? = some login) (free : login.registering = none) :
    Turn s (s.setStage index login .ended) index login { login with stage := .ended } := by
  apply turn_stage inv found .ended trivial
  · exact fun user registers => nomatch free.symm.trans registers
  · exact nofun

theorem turn_serve {t : State} (found : s.logins[index]? = some login) (same : t.logins = s.logins)
    (frame : Frame s t) (tables : Tables t) (linked : (login.identity, user) ∈ t.links)
    (role : user ∈ t.created → t.hasRole user = true) (created : t.created = s.created)
    (finished : ∀ user, login.registering = some user → t.hasRole user = true)
    (promoted : t.promoted = s.promoted ∨ login.promotes = true) :
    Turn s (t.serve index login user) index login { login with stage := .ended } where
  found := found
  logins := by rw [← same]; rfl
  frame := ⟨frame.links, frame.created, frame.older, frame.users, frame.roles⟩
  tables :=
    { distinct := tables.distinct
      linked := tables.linked
      served := by
        intro row mem
        obtain rfl | older := mem_cons.mp mem
        · exact linked
        · exact tables.served row older
      assigned := by
        intro identity other mem registered
        obtain here | older := mem_cons.mp mem
        · obtain ⟨rfl, rfl⟩ := Prod.mk.inj here
          exact role registered
        · exact tables.assigned identity other older registered
      created := tables.created
      promoted := tables.promoted }
  own := trivial
  finished user registers := .inr (finished user registers)
  began user mem := .inl (created ▸ mem)
  promotes := nofun
  promoted := promoted.imp id fun did => ⟨did, rfl⟩

theorem linkOf_modify {other : Nat} :
    State.linkOf { s with users := s.users.modify user f } other =
      (s.users[other]?.bind fun row => if user = other then (f row).identity else row.identity) := by
  rw [State.linkOf, getElem?_modify]
  cases s.users[other]? with
  | none => rfl
  | some row =>
    change (if user = other then f row else row).identity = if user = other then (f row).identity else row.identity
    split <;> rfl

theorem isFirstBoot_modify (keeps : ∀ row, (f row).isSystem = row.isSystem) :
    State.isFirstBoot { s with users := s.users.modify user f } = s.isFirstBoot := by
  have row (other : Nat) : ((s.users.modify user f)[other]?.any (!·.isSystem)) = s.users[other]?.any (!·.isSystem) := by
    rw [getElem?_modify]
    cases s.users[other]? with
    | none => rfl
    | some row =>
      change (!(if user = other then f row else row).isSystem) = !row.isSystem
      split
      · rw [keeps]
      · rfl
  simp only [State.isFirstBoot, row]

theorem isFirstBoot_false : s.isFirstBoot = false ↔
    ∃ row ∈ s.assignments, ∃ user, s.users[row.1]? = some user ∧ user.isSystem = false := by
  simp [State.isFirstBoot, Option.any_eq_true]

theorem created_modify (tables : Tables s) (keeps : ∀ row, (f row).isSystem = row.isSystem)
    (linked : ∀ row, row.identity ≠ none → (f row).identity ≠ none) :
    ∀ other ∈ s.created, ∃ row, (s.users.modify user f)[other]? = some row ∧ row.isSystem = false ∧ row.identity ≠ none := by
  intro other mem
  obtain ⟨row, found, human, identity⟩ := tables.created other mem
  refine ⟨if user = other then f row else row, by rw [getElem?_modify, found]; rfl, ?_⟩
  split
  · exact ⟨(keeps row).trans human, linked row identity⟩
  · exact ⟨human, identity⟩

theorem turn_refresh (inv : Inv s) (found : s.logins[index]? = some login)
    (stage : login.stage = .refreshing user) :
    Turn s ({ s with users := s.users.modify user (withEmail login.email) }.serve index login user) index login
      { login with stage := .ended } := by
  have own := inv.logins index login found
  unfold LoginInv at own
  rw [stage] at own
  have free : login.registering = none := by rw [Login.registering, stage]
  have links (other : Nat) :
      State.linkOf { s with users := s.users.modify user (withEmail login.email) } other = s.linkOf other := by
    rw [linkOf_modify]
    simp [withEmail, State.linkOf]
  apply turn_serve (t := { s with users := s.users.modify user (withEmail login.email) }) found rfl _ _ own.1 own.2 rfl _
    (.inl rfl)
  · exact ⟨fun _ mem => mem, fun _ mem => mem, fun _ _ mem => mem, by simp, fun _ role => role⟩
  · refine ⟨?_, ?_, inv.tables.served, inv.tables.assigned, created_modify inv.tables (fun _ => rfl) fun _ some' => some', ?_⟩
    · simpa only [links] using inv.tables.distinct
    · simpa only [links] using inv.tables.linked
    · rw [isFirstBoot_modify (f := withEmail login.email) fun _ => rfl]
      exact inv.tables.promoted
  · exact fun user registers => nomatch free.symm.trans registers

theorem turn_link (inv : Inv s) (found : s.logins[index]? = some login) (stage : login.stage = .linking user)
    (untaken : s.identityTaken login.identity user = false)
    (still : (s.linkOf user).all (· = login.identity) = true) :
    Turn s ({ s with
      users := s.users.modify user (withIdentity login.identity)
      links := (login.identity, user) :: s.links }.serve index login user) index login { login with stage := .ended } := by
  have own := inv.logins index login found
  unfold LoginInv at own
  rw [stage] at own
  have free : login.registering = none := by rw [Login.registering, stage]
  have links (other : Nat) : State.linkOf { s with
      users := s.users.modify user (withIdentity login.identity)
      links := (login.identity, user) :: s.links } other =
      if other = user then some login.identity else s.linkOf other := by
    rw [show State.linkOf { s with
        users := s.users.modify user (withIdentity login.identity)
        links := (login.identity, user) :: s.links } other =
        State.linkOf { s with users := s.users.modify user (withIdentity login.identity) } other from rfl, linkOf_modify]
    by_cases same : other = user
    · obtain rfl := same
      simp [withIdentity, getElem?_eq_getElem own.1]
    · simp [same, Ne.symm same, State.linkOf]
  -- what the user was linked to before is the identity of this login
  have before (identity : Identity) (linked : s.linkOf user = some identity) : identity = login.identity := by
    rw [linked] at still
    simpa using still
  apply turn_serve (t := { s with
      users := s.users.modify user (withIdentity login.identity)
      links := (login.identity, user) :: s.links }) found rfl _ _ mem_cons_self (fun mem => absurd mem own.2) rfl _
    (.inl rfl)
  · refine ⟨fun _ mem => mem_cons_of_mem _ mem, fun _ mem => mem, fun _ _ mem => mem, by simp,
      fun _ role => role⟩
  · refine ⟨inv.tables.distinct_link untaken links, inv.tables.linked_link links before,
      fun row mem => mem_cons_of_mem _ (inv.tables.served row mem), inv.tables.assigned,
      created_modify inv.tables (fun _ => rfl) fun _ _ => nofun, ?_⟩
    · have boot : State.isFirstBoot { s with
          users := s.users.modify user (withIdentity login.identity)
          links := (login.identity, user) :: s.links } = s.isFirstBoot :=
        isFirstBoot_modify (s := s) fun _ => rfl
      rw [boot]
      exact inv.tables.promoted
  · exact fun user registers => nomatch free.symm.trans registers

theorem turn_insert (inv : Inv s) (found : s.logins[index]? = some login) (stage : login.stage = .inserting)
    (untaken : s.identityTaken login.identity s.users.length = false) :
    Turn s ({ s with
      users := s.users ++ [User.mk login.email (some login.identity) false]
      created := s.users.length :: s.created
      links := (login.identity, s.users.length) :: s.links }.setStage index login (.checking s.users.length)) index login
      { login with stage := .checking s.users.length } := by
  have links (other : Nat) : ((s.users ++ [User.mk login.email (some login.identity) false])[other]?.bind (·.identity)) =
      if other = s.users.length then some login.identity else s.linkOf other := by
    rw [getElem?_append]
    by_cases new : other = s.users.length
    · simp [new]
    · by_cases bound : other < s.users.length
      · simp [new, bound, State.linkOf]
      · have beyond : ¬other - s.users.length = 0 := by omega
        simp [new, bound, State.linkOf, getElem?_singleton, beyond]
  have older (other : Nat) (bound : other < s.users.length) :
      (s.users ++ [User.mk login.email (some login.identity) false])[other]? = s.users[other]? :=
    getElem?_append_left bound
  refine ⟨found, rfl, ?_, ?_, ⟨mem_cons_self, mem_cons_self⟩, ?_, ?_, nofun, .inl rfl⟩
  · refine ⟨fun _ mem => mem_cons_of_mem _ mem, fun _ mem => mem_cons_of_mem _ mem, ?_, ?_,
      fun _ role => role⟩
    · intro user bound mem
      obtain rfl | older := mem_cons.mp mem
      · exact absurd bound (Nat.lt_irrefl _)
      · exact older
    · change s.users.length ≤ (s.users ++ _).length
      simp
  · refine ⟨inv.tables.distinct_link untaken links,
      inv.tables.linked_link links fun _ linked => absurd (linkOf_lt linked) (Nat.lt_irrefl _),
      fun row mem => mem_cons_of_mem _ (inv.tables.served row mem), ?_, ?_, ?_⟩
    · intro identity user mem registered
      obtain rfl | older := mem_cons.mp registered
      · -- nobody was served as a user that is only registered now
        exact absurd (linkOf_lt ((inv.tables.linked _ _).mp (inv.tables.served _ mem))) (Nat.lt_irrefl _)
      · exact inv.tables.assigned identity user mem older
    · intro user mem
      obtain rfl | before := mem_cons.mp mem
      · exact ⟨_, getElem?_concat_length, rfl, nofun⟩
      · obtain ⟨row, place, holds⟩ := inv.tables.created user before
        exact ⟨row, (older user (inv.tables.bound before)).trans place, holds⟩
    · apply inv.tables.promoted.imp id
      intro ⟨one, known⟩
      refine ⟨one, ?_⟩
      obtain ⟨row, mem, user, place, human⟩ := isFirstBoot_false.mp known
      have bound : row.1 < s.users.length := (List.getElem?_eq_some_iff.mp place).1
      exact isFirstBoot_false.mpr ⟨row, mem, user, (older row.1 bound).trans place, human⟩
  · intro user registers
    rw [Login.registering, stage] at registers
    cases registers
  · intro user mem
    obtain rfl | older := mem_cons.mp mem
    · exact .inr rfl
    · exact .inl older

theorem booted {row : User} {role : Text} (found : s.users[user]? = some row) (human : row.isSystem = false)
    (assignments : List (Nat × Text)) (mem : (user, role) ∈ assignments) (promoted : List Nat) :
    State.isFirstBoot { s with assignments := assignments, promoted := promoted } = false :=
  isFirstBoot_false.mpr ⟨(user, role), mem, row, found, human⟩

theorem turn_assign {role : Text} {firstBoot : Bool} (inv : Inv s) (found : s.logins[index]? = some login)
    (stage : login.stage = .assigning user role firstBoot) :
    Turn s ({ s with
      assignments := if (user, role) ∈ s.assignments then s.assignments else s.assignments ++ [(user, role)]
      promoted := if firstBoot then user :: s.promoted else s.promoted }.serve index login user) index login
      { login with stage := .ended } := by
  have own := inv.logins index login found
  unfold LoginInv at own
  rw [stage] at own
  have kept (row : Nat × Text) (mem : row ∈ s.assignments) :
      row ∈ if (user, role) ∈ s.assignments then s.assignments else s.assignments ++ [(user, role)] := by
    split
    · exact mem
    · exact mem_append_left _ mem
  have assigned : (user, role) ∈ if (user, role) ∈ s.assignments then s.assignments else s.assignments ++ [(user, role)] := by
    split
    · next mem => exact mem
    · exact mem_append_right _ mem_cons_self
  have roles (other : Nat) (has : s.hasRole other = true) : State.hasRole { s with
      assignments := if (user, role) ∈ s.assignments then s.assignments else s.assignments ++ [(user, role)] } other = true := by
    obtain ⟨row, mem, same⟩ := any_eq_true.mp has
    exact any_eq_true.mpr ⟨row, kept row mem, same⟩
  have has : State.hasRole { s with
      assignments := if (user, role) ∈ s.assignments then s.assignments else s.assignments ++ [(user, role)] } user = true :=
    any_eq_true.mpr ⟨_, assigned, by simp⟩
  obtain ⟨row, place, human, -⟩ := inv.tables.created user own.1
  apply turn_serve (t := { s with
      assignments := if (user, role) ∈ s.assignments then s.assignments else s.assignments ++ [(user, role)]
      promoted := if firstBoot then user :: s.promoted else s.promoted }) found rfl _ _ own.2 (fun _ => has) rfl
  · intro other registers
    rw [Login.registering, stage] at registers
    cases registers
    exact has
  · cases firstBoot with
    | false => exact .inl rfl
    | true => exact .inr (by rw [Login.promotes, stage])
  · exact ⟨fun _ mem => mem, fun _ mem => mem, fun _ _ mem => mem, le_rfl, roles⟩
  · refine ⟨inv.tables.distinct, inv.tables.linked, inv.tables.served, ?_, inv.tables.created, ?_⟩
    · exact fun identity other mem registered => roles other (inv.tables.assigned identity other mem registered)
    · have done := booted place human _ assigned (if firstBoot then user :: s.promoted else s.promoted)
      cases firstBoot with
      | false => exact inv.tables.promoted.imp id fun one => ⟨one.1, done⟩
      | true =>
        have empty : s.promoted = [] := inv.fresh index login found (by rw [Login.promotes, stage])
        exact .inr ⟨by simp [empty], done⟩

/-! ## Steps and runs -/

theorem Inv.advance (inv : Inv s) (found : s.logins[index]? = some login) (undisturbed : s.undisturbed login = true) :
    Inv (s.advance index login) := by
  have free : login.registering = none → Inv (s.setStage index login .ended) := fun free =>
    (turn_end inv found free).inv inv
  have own := inv.logins index login found
  unfold LoginInv at own
  unfold State.advance
  unfold State.undisturbed at undisturbed
  cases stage : login.stage with
  | looking =>
    simp only [stage] at undisturbed ⊢
    have silent : ∀ user, login.registering ≠ some user := by simp [Login.registering, stage]
    cases user : s.userOf login.identity with
    | none => exact (turn_stage inv found .matching trivial (fun user is => absurd is (silent user)) nofun).inv inv
    | some user =>
      have linked := (inv.tables.linked _ _).mpr (linkOf_of_userOf user)
      refine (turn_stage inv found (.refreshing _) ⟨linked, ?_⟩ (fun user is => absurd is (silent user)) nofun).inv inv
      intro mem
      obtain role | ⟨place, other, there, registers⟩ := inv.registered _ mem
      · exact role
      · -- the login in the middle of its registration would disturb this one
        have apart := all_eq_true.mp undisturbed other (mem_of_getElem? there)
        rw [registers, user] at apart
        simp at apart
  | refreshing user =>
    simp only
    split
    · exact free (by rw [Login.registering, stage])
    · exact (turn_refresh inv found stage).inv inv
  | matching =>
    have silent : ∀ user, login.registering ≠ some user := by simp [Login.registering, stage]
    simp only
    cases user : s.provisioned login.email with
    | some user =>
      obtain ⟨bound, unlinked⟩ := provisioned_free user
      refine (turn_stage inv found (.linking _) ⟨bound, ?_⟩ (fun user is => absurd is (silent user)) nofun).inv inv
      exact fun mem => inv.tables.link mem unlinked
    | none =>
      simp only
      split
      · exact (turn_stage inv found .inserting trivial (fun user is => absurd is (silent user)) nofun).inv inv
      · exact free (by rw [Login.registering, stage])
  | linking user =>
    simp only [stage] at undisturbed ⊢
    split
    · exact free (by rw [Login.registering, stage])
    · next untaken => exact (turn_link inv found stage (Bool.eq_false_iff.mpr untaken) undisturbed).inv inv
  | inserting =>
    simp only
    split
    · exact free (by rw [Login.registering, stage])
    · next untaken =>
      rw [Bool.or_eq_true, not_or] at untaken
      exact (turn_insert inv found stage (Bool.eq_false_iff.mpr untaken.2)).inv inv
  | checking user =>
    simp only [stage] at own undisturbed ⊢
    refine (turn_stage inv found (.resolving user s.isFirstBoot) own ?_ ?_).inv inv
    · intro other registers
      rwa [Login.registering, stage] at registers
    · intro boots
      have boot : s.isFirstBoot = true := boots
      refine .inr ⟨?_, ?_⟩
      · obtain empty | ⟨-, known⟩ := inv.tables.promoted
        · exact empty
        · exact nomatch boot.symm.trans known
      · rw [boot] at undisturbed
        intro other mem
        simpa using all_eq_true.mp undisturbed other mem
  | resolving user firstBoot =>
    simp only [stage] at own ⊢
    refine (turn_stage inv found (.assigning user _ firstBoot) own ?_ ?_).inv inv
    · intro other registers
      rwa [Login.registering, stage] at registers
    · intro boots
      exact .inl (by rw [Login.promotes, stage]; exact boots)
  | assigning user role firstBoot => exact (turn_assign inv found stage).inv inv
  | ended => exact inv

theorem Inv.arrive (inv : Inv s) (new : Login) (stage : new.stage = .looking) : Inv { s with logins := s.logins ++ [new] } := by
  have place (j : Nat) (other : Login) (found : (s.logins ++ [new])[j]? = some other) : s.logins[j]? = some other ∨ other = new :=
    (Slots.concat_iff.mp found).symm.imp id And.right
  have silent : new.promotes = false := by rw [Login.promotes, stage]
  refine ⟨⟨inv.tables.distinct, inv.tables.linked, inv.tables.served, inv.tables.assigned, inv.tables.created,
    inv.tables.promoted⟩, ?_, ?_, ?_, ?_⟩
  · intro j other found
    obtain older | rfl := place j other found
    · exact inv.logins j other older
    · unfold LoginInv
      rw [stage]
      trivial
  · intro user mem
    apply (inv.registered user mem).imp id
    intro ⟨j, other, found, registers⟩
    exact ⟨j, other, (getElem?_append_left (List.getElem?_eq_some_iff.mp found).1).trans found, registers⟩
  · intro i j first second foundFirst foundSecond promotesFirst promotesSecond
    obtain foundFirst | rfl := place i first foundFirst
    · obtain foundSecond | rfl := place j second foundSecond
      · exact inv.alone i j first second foundFirst foundSecond promotesFirst promotesSecond
      · exact nomatch silent.symm.trans promotesSecond
    · exact nomatch silent.symm.trans promotesFirst
  · intro j other found promotes
    obtain found | rfl := place j other found
    · exact inv.fresh j other found promotes
    · exact nomatch silent.symm.trans promotes

theorem Inv.tablesOnly (inv : Inv s) (frame : Frame s s') (tables : Tables s') (logins : s'.logins = s.logins)
    (created : s'.created = s.created) (promoted : s'.promoted = s.promoted) : Inv s' where
  tables := tables
  logins index login found := (inv.logins index login (logins ▸ found)).frame inv.tables frame
  registered user mem :=
    (inv.registered user (created ▸ mem)).imp (frame.roles user) fun ⟨j, other, found, registers⟩ =>
      ⟨j, other, logins ▸ found, registers⟩
  alone i j first second foundFirst foundSecond := inv.alone i j first second (logins ▸ foundFirst) (logins ▸ foundSecond)
  fresh index login found promotes := promoted.trans (inv.fresh index login (logins ▸ found) promotes)

theorem Inv.provision (inv : Inv s) (email : Text) : Inv { s with users := s.users ++ [User.mk email none false] } := by
  have links (other : Nat) : ((s.users ++ [User.mk email none false])[other]?.bind (·.identity)) = s.linkOf other := by
    rw [State.linkOf, getElem?_append]
    split
    · rfl
    · next beyond =>
      rw [getElem?_eq_none (Nat.le_of_not_lt beyond), getElem?_singleton]
      split <;> rfl
  have frame : Frame s { s with users := s.users ++ [User.mk email none false] } :=
    ⟨fun _ mem => mem, fun _ mem => mem, fun _ _ mem => mem, by simp, fun _ role => role⟩
  have tables : Tables { s with users := s.users ++ [User.mk email none false] } := by
    refine ⟨?_, ?_, inv.tables.served, inv.tables.assigned, ?_, ?_⟩
    · intro one two identity first second
      exact inv.tables.distinct one two identity ((links one).symm.trans first) ((links two).symm.trans second)
    · intro identity other
      rw [show State.linkOf { s with users := s.users ++ [User.mk email none false] } other = s.linkOf other from links other]
      exact inv.tables.linked identity other
    · intro user mem
      obtain ⟨row, place, holds⟩ := inv.tables.created user mem
      exact ⟨row, (getElem?_append_left (inv.tables.bound mem)).trans place, holds⟩
    · apply inv.tables.promoted.imp id
      intro ⟨one, known⟩
      refine ⟨one, ?_⟩
      obtain ⟨row, mem, user, place, human⟩ := isFirstBoot_false.mp known
      have bound : row.1 < s.users.length := (List.getElem?_eq_some_iff.mp place).1
      exact isFirstBoot_false.mpr ⟨row, mem, user, (getElem?_append_left bound).trans place, human⟩
  exact inv.tablesOnly frame tables rfl rfl rfl

theorem Inv.assign (inv : Inv s) (user : Nat) (role : Text) : Inv { s with assignments := s.assignments ++ [(user, role)] } := by
  have roles (other : Nat) (has : s.hasRole other = true) :
      State.hasRole { s with assignments := s.assignments ++ [(user, role)] } other = true := by
    obtain ⟨row, mem, same⟩ := any_eq_true.mp has
    exact any_eq_true.mpr ⟨row, mem_append_left _ mem, same⟩
  have frame : Frame s { s with assignments := s.assignments ++ [(user, role)] } :=
    ⟨fun _ mem => mem, fun _ mem => mem, fun _ _ mem => mem, le_rfl, roles⟩
  have tables : Tables { s with assignments := s.assignments ++ [(user, role)] } := by
    refine ⟨inv.tables.distinct, inv.tables.linked, inv.tables.served, ?_, inv.tables.created, ?_⟩
    · exact fun identity other mem registered => roles other (inv.tables.assigned identity other mem registered)
    · apply inv.tables.promoted.imp id
      intro ⟨one, known⟩
      refine ⟨one, ?_⟩
      obtain ⟨row, mem, holds⟩ := isFirstBoot_false.mp known
      exact isFirstBoot_false.mpr ⟨row, mem_append_left _ mem, holds⟩
  exact inv.tablesOnly frame tables rfl rfl rfl

theorem Inv.step {action : Action} (inv : Inv s) (stepped : step s action = some s') (orderly : Orderly s action) : Inv s' := by
  cases action with
  | arrive identity email role autoRegister defaultRole =>
    cases stepped
    exact inv.arrive _ rfl
  | advance index =>
    obtain ⟨login, found, stepped⟩ := bind_eq_some_iff.mp stepped
    split at stepped
    · cases stepped
    · cases stepped
      exact inv.advance found (orderly login found)
  | bootUnknown index =>
    obtain ⟨login, found, stepped⟩ := bind_eq_some_iff.mp stepped
    have own := inv.logins index login found
    unfold LoginInv at own
    split at stepped
    · next user stage =>
      cases stepped
      simp only [stage] at own
      refine (turn_stage inv found (.resolving user false) own ?_ nofun).inv inv
      intro other registers
      rwa [Login.registering, stage] at registers
    · cases stepped
  | fail index =>
    obtain ⟨login, found, stepped⟩ := bind_eq_some_iff.mp stepped
    split at stepped
    · cases stepped
    · cases stepped
      exact (turn_end inv found (orderly login found)).inv inv
  | provision email =>
    change (if _ then none else some _) = some s' at stepped
    split at stepped
    · cases stepped
    · cases stepped
      exact inv.provision email
  | assign user role =>
    change (if _ then some _ else none) = some s' at stepped
    split at stepped
    · cases stepped
      exact inv.assign user role
    · cases stepped

theorem State.Start.inv (start : s.Start) : Inv s := by
  obtain ⟨distinct, linked, logins, created, promoted, served⟩ := start
  have none' (index : Nat) (login : Login) : s.logins[index]? ≠ some login := by simp [logins]
  refine ⟨⟨distinct, linked, ?_, ?_, ?_, .inl promoted⟩, ?_, ?_, ?_, ?_⟩
  · simp [served]
  · simp [served]
  · simp [created]
  · exact fun index login found => absurd found (none' index login)
  · simp [created]
  · exact fun index _ login _ found => absurd found (none' index login)
  · exact fun index login found => absurd found (none' index login)

theorem Inv.upheld (inv : Inv s) : s.Upheld where
  sameUser identity user other first second :=
    inv.tables.distinct user other identity ((inv.tables.linked ..).mp first) ((inv.tables.linked ..).mp second)
  sameIdentity identity other user first second :=
    some.inj (((inv.tables.linked ..).mp first).symm.trans ((inv.tables.linked ..).mp second))
  served := inv.tables.served
  assigned := inv.tables.assigned
  oneAdministrator := by
    obtain empty | ⟨one, -⟩ := inv.tables.promoted
    · simp [empty]
    · exact one.le

/-- In every run of undisturbed logins, an identity keeps its user and a user its identity,
    every registered user has a role when it is answered, and one at most is promoted. -/
theorem logins_upheld {s last : State} {actions : List Action} (start : s.Start)
    (ran : Runs.run step s actions = some last) (orderly : Runs.Along step Orderly s actions) : last.Upheld := by
  have inv : Inv last := Runs.run_along (fun inv stepped meets => Inv.step inv stepped meets) start.inv ran orderly
  exact inv.upheld

/-! The first user of a tenant signs in. -/

def newTenant : State := ⟨[], [], ["admin", "base"], [], [], [], [], []⟩

def annArrives : Action := .arrive ⟨"google", "1"⟩ "ann@example.com" none true "base"

def annSignsIn : List Action :=
  [annArrives, .advance 0, .advance 0, .advance 0, .advance 0, .advance 0, .advance 0]

theorem newTenant_start : newTenant.Start :=
  ⟨fun _ _ _ => nofun, fun _ _ => ⟨fun mem => absurd mem not_mem_nil, nofun⟩, rfl, rfl, rfl, rfl⟩

theorem ann_upheld : ∃ last, Runs.run step newTenant annSignsIn = some last ∧ last.promoted = [0] ∧ last.Upheld := by
  have read : (Runs.run step newTenant annSignsIn).map (·.promoted) = some [0] := by decide +kernel
  obtain ⟨last, ran, promoted⟩ := Option.map_eq_some_iff.mp read
  exact ⟨last, ran, promoted, logins_upheld newTenant_start ran (by decide +kernel)⟩

/-- Her first login is cut off behind the registration, and the second one serves her
    without a role. -/
def annCutOff : List Action :=
  [annArrives, .advance 0, .advance 0, .advance 0, .fail 0, annArrives, .advance 1, .advance 1]

theorem ann_without_role : ∃ last, Runs.run step newTenant annCutOff = some last ∧
    (⟨"google".toList, "1".toList⟩, 0) ∈ last.served ∧ 0 ∈ last.created ∧ last.hasRole 0 = false := by
  have read : (Runs.run step newTenant annCutOff).map (fun last => (last.served, last.created, last.assignments)) =
      some ([(⟨"google".toList, "1".toList⟩, 0)], [0], []) := by decide +kernel
  obtain ⟨last, ran, same⟩ := Option.map_eq_some_iff.mp read
  simp only [Prod.mk.injEq] at same
  obtain ⟨served, created, assignments⟩ := same
  exact ⟨last, ran, by simp [served], by simp [created], by simp [State.hasRole, assignments]⟩

end RootCx.Oidc
