import RootCx.Channels.Links
import RootCx.Lib.Lookup

/-! # The authority of linked chats

A run is pinned to the row of its delegation, and a row that is revoked stays so: a run is
cut off for good by whatever revokes its row.  A transaction revokes the rows that it has
found, so while it is open these have to be all of its user; that is what the creation of a
delegation in between would break.
-/

namespace RootCx.ChannelLinks

open RootCx.Text List

variable {channel : Channel} {s s' : State}

variable {app chat : Text} {index : Nat} {link : Link} {unlink : Unlink} {message : Message} {gate : Bool}
  {action : Action}

/-! ## Rows -/

section Rows

variable {rows rows' : List Delegation} {ref other : Text × Nat} {ids : List Nat} {index : Nat}

def RefAt (rows : List Delegation) (index : Nat) (ref : Text × Nat) : Prop := ∃ row, rows[index]? = some row ∧ row.ref = ref

def RevokedAt (rows : List Delegation) (index : Nat) : Prop := ∃ row, rows[index]? = some row ∧ row.revoked = true

/-- Rows keep their places and what they are for, and stay revoked. -/
def Grows (rows rows' : List Delegation) : Prop :=
  ∀ (index : Nat) (row : Delegation), rows[index]? = some row →
    ∃ row', rows'[index]? = some row' ∧ row'.ref = row.ref ∧ (row.revoked = true → row'.revoked = true)

/-- These are rows of a trigger, and all of its active ones. -/
structure Collected (rows : List Delegation) (ref : Text × Nat) (ids : List Nat) : Prop where
  active : ∀ (index : Nat) (row : Delegation), rows[index]? = some row → row.ref = ref → row.revoked = false → index ∈ ids
  own : ∀ index ∈ ids, RefAt rows index ref

theorem RefAt.grows (at' : RefAt rows index ref) (grows : Grows rows rows') : RefAt rows' index ref := by
  obtain ⟨row, there, rfl⟩ := at'
  obtain ⟨row', there', same, -⟩ := grows index row there
  exact ⟨row', there', same⟩

theorem RevokedAt.grows (at' : RevokedAt rows index) (grows : Grows rows rows') : RevokedAt rows' index := by
  obtain ⟨row, there, revoked⟩ := at'
  obtain ⟨row', there', -, still⟩ := grows index row there
  exact ⟨row', there', still revoked⟩

theorem revokeAll_getElem? : (revokeAll rows ids)[index]? =
    rows[index]?.map fun row => if index ∈ ids then { row with revoked := true } else row :=
  getElem?_mapIdx

theorem grows_revokeAll : Grows rows (revokeAll rows ids) := by
  intro index row there
  refine ⟨_, by rw [revokeAll_getElem?, there, Option.map_some], ?_, ?_⟩
  · split <;> rfl
  · split
    · exact fun _ => rfl
    · exact id

theorem RefAt.revoked (at' : RefAt rows index ref) (mem : index ∈ ids) : RevokedAt (revokeAll rows ids) index := by
  obtain ⟨row, there, -⟩ := at'
  exact ⟨{ row with revoked := true }, by rw [revokeAll_getElem?, there, Option.map_some, if_pos mem], rfl⟩

theorem RefAt.severed (at' : RefAt rows index ref) (collected : Collected rows ref ids) : RevokedAt (revokeAll rows ids) index := by
  obtain ⟨row, there, same⟩ := at'
  cases revoked : row.revoked with
  | false => exact RefAt.revoked ⟨row, there, same⟩ (collected.active index row there same revoked)
  | true => exact RevokedAt.grows ⟨row, there, revoked⟩ grows_revokeAll

theorem Collected.revokeAll (collected : Collected rows ref ids) (others : List Nat) :
    Collected (revokeAll rows others) ref ids where
  active index row there same revoked := by
    rw [revokeAll_getElem?] at there
    obtain ⟨before, was, rfl⟩ := Option.map_eq_some_iff.mp there
    by_cases mem : index ∈ others
    · rw [if_pos mem] at revoked
      cases revoked
    · rw [if_neg mem] at same revoked
      exact collected.active index before was same revoked
  own index mem := (collected.own index mem).grows grows_revokeAll

theorem mem_activeIds : index ∈ activeIds rows ref ↔ ∃ row, rows[index]? = some row ∧ row.ref = ref ∧ row.revoked = false := by
  simp only [activeIds, mem_filter, mem_range, Option.any_eq_true, Bool.and_eq_true, decide_eq_true_eq,
    Bool.not_eq_true']
  constructor
  · exact And.right
  · rintro ⟨row, there, fits⟩
    exact ⟨(List.getElem?_eq_some_iff.mp there).1, row, there, fits⟩

theorem collected_activeIds : Collected rows ref (activeIds rows ref) where
  active index row there same revoked := mem_activeIds.mpr ⟨row, there, same, revoked⟩
  own index mem := by
    obtain ⟨row, there, same, -⟩ := mem_activeIds.mp mem
    exact ⟨row, there, same⟩

theorem create_cases (rows : List Delegation) (ref : Text × Nat) (user : Nat) (app : Text) :
    (∃ index row, rows[index]? = some row ∧ row.ref = ref ∧ row.revoked = false ∧ (activeIds rows ref).head? = some index ∧
        create rows ref user app = rows.set index { row with delegator := user }) ∨
      (activeIds rows ref).head? = none ∧ create rows ref user app = rows ++ [⟨ref, user, app, false⟩] := by
  unfold create
  cases first : (activeIds rows ref).head? with
  | none => exact .inr ⟨rfl, rfl⟩
  | some index =>
    obtain ⟨row, there, same, active⟩ := mem_activeIds.mp (mem_of_head? first)
    exact .inl ⟨index, row, there, same, active, rfl, Slots.modify_eq there _⟩

theorem grows_create {user : Nat} : Grows rows (create rows ref user app) := by
  intro place row there
  obtain ⟨index, held, found, -, -, -, same⟩ | ⟨-, same⟩ := create_cases rows ref user app
  · rw [same]
    by_cases here : place = index
    · subst here
      cases found.symm.trans there
      exact ⟨_, Slots.set_self found, rfl, id⟩
    · exact ⟨row, (Slots.set_iff found).mpr (.inr ⟨here, there⟩), rfl, id⟩
  · rw [same]
    exact ⟨row, Slots.concat_iff.mpr (.inr there), rfl, id⟩

theorem Collected.create (collected : Collected rows other ids) {user : Nat} (differs : other ≠ ref) :
    Collected (create rows ref user app) other ids where
  active place row there same revoked := by
    obtain ⟨index, held, found, isRef, -, -, created⟩ | ⟨-, created⟩ := create_cases rows ref user app
    · rw [created] at there
      obtain ⟨-, rfl⟩ | ⟨-, was⟩ := (Slots.set_iff found).mp there
      · exact absurd (same.symm.trans isRef) differs
      · exact collected.active place row was same revoked
    · rw [created] at there
      obtain ⟨-, rfl⟩ | was := Slots.concat_iff.mp there
      · exact absurd same.symm differs
      · exact collected.active place row was same revoked
  own index mem := (collected.own index mem).grows grows_create

end Rows

/-! ## Look-ups -/

theorem lookup_drop {value : Type*} (rows : List (Text × value)) (key name : Text) :
    ((rows.filter (·.1 ≠ key)).find? (·.1 = name)).map (·.2) =
      if name = key then none else (rows.find? (·.1 = name)).map (·.2) := by
  induction rows with
  | nil => simp
  | cons row rest ih =>
    by_cases dropped : row.1 = key
    · rw [filter_cons_of_neg (by simp [dropped]), ih]
      by_cases same : name = key
      · rw [if_pos same, if_pos same]
      · rw [if_neg same, if_neg same, find?_cons_of_neg (by simpa [dropped] using Ne.symm same)]
    · rw [filter_cons_of_pos (by simp [dropped])]
      by_cases here : row.1 = name
      · rw [find?_cons_of_pos (by simp [here]), find?_cons_of_pos (by simp [here]), if_neg (here ▸ dropped)]
      · rw [find?_cons_of_neg (by simp [here]), find?_cons_of_neg (by simp [here]), ih]

theorem lookup_put {value : Type*} (rows : List (Text × value)) (key name : Text) (given : value) :
    ((rows.filter (·.1 ≠ key) ++ [(key, given)]).find? (·.1 = name)).map (·.2) =
      if name = key then some given else (rows.find? (·.1 = name)).map (·.2) := by
  have dropped := lookup_drop rows key name
  rw [find?_append]
  by_cases same : name = key
  · rw [if_pos same] at dropped ⊢
    rw [Option.map_eq_none_iff.mp dropped, Option.none_or, find?_cons_of_pos (by simp [same])]
    rfl
  · have other : ¬key = name := fun equal => same equal.symm
    rw [if_neg same] at dropped ⊢
    rw [find?_cons_of_neg (by simpa using other), find?_nil, Option.or_none, dropped]

theorem names_iff {user : Nat} : s.names channel user app = true ↔
    ∃ (index : Nat) (row : Delegation), s.delegations[index]? = some row ∧ row.ref = channelDelegationRef channel.id user ∧
      row.delegator = user ∧ row.app = app ∧ row.revoked = false := by
  simp only [State.names, any_eq_true, Bool.and_eq_true, decide_eq_true_eq, Bool.not_eq_true', mem_iff_getElem?,
    and_assoc]
  exact ⟨fun ⟨row, ⟨index, there⟩, fits⟩ => ⟨index, row, there, fits⟩, fun ⟨index, row, there, fits⟩ => ⟨row, ⟨index, there⟩, fits⟩⟩

theorem linking_iff {user : Nat} : s.linking chat user = true ↔
    ∃ (index : Nat) (link : Link), s.links[index]? = some link ∧ link.chat = chat ∧ link.user = user ∧
      link.stage.underWay = true := by
  simp only [State.linking, any_eq_true, Bool.and_eq_true, decide_eq_true_eq, mem_iff_getElem?, and_assoc]
  exact ⟨fun ⟨link, ⟨index, there⟩, fits⟩ => ⟨index, link, there, fits⟩, fun ⟨index, link, there, fits⟩ => ⟨link, ⟨index, there⟩, fits⟩⟩

theorem linking_setLink (found : s.links[index]? = some link) (link' : Link)
    (goes : link.stage.underWay = true → link'.chat = link.chat ∧ link'.user = link.user ∧ link'.stage.underWay = true)
    {user : Nat} (linking : s.linking chat user = true) :
    (s.setLink index link').linking chat user = true := by
  obtain ⟨place, other, there, rfl, rfl, underWay⟩ := linking_iff.mp linking
  apply linking_iff.mpr
  by_cases here : place = index
  · subst here
    cases found.symm.trans there
    exact ⟨place, link', Slots.set_self found, goes underWay⟩
  · exact ⟨place, other, (Slots.set_iff found).mpr (.inr ⟨here, there⟩), rfl, rfl, underWay⟩

theorem linking_cases (found : s.links[index]? = some link) {user : Nat}
    (linking : s.linking chat user = true) :
    link.chat = chat ∧ link.user = user ∧ link.stage.underWay = true ∨
      (s.setLink index { link with stage := .ended }).linking chat user = true := by
  obtain ⟨place, other, there, sameChat, sameUser, underWay⟩ := linking_iff.mp linking
  by_cases here : place = index
  · subst here
    cases found.symm.trans there
    exact .inl ⟨sameChat, sameUser, underWay⟩
  · exact .inr (linking_iff.mpr ⟨place, other, (Slots.set_iff found).mpr (.inr ⟨here, there⟩), sameChat, sameUser, underWay⟩)

/-! ## The invariant -/

/-- What is pinned to rows: messages, runs and open transactions. -/
structure Tied (channel : Channel) (rows : List Delegation) (messages : List Message) (runs : List Run)
    (unlinks : List Unlink) (links : List Link) : Prop where
  loaded : ∀ message ∈ messages, ∀ index, message.stage = .loaded index ∨ message.stage = .validated index →
    ∃ human, message.human = some (some human) ∧ RefAt rows index (channelDelegationRef channel.id human)
  held : ∀ run ∈ runs, RefAt rows run.delegation (channelDelegationRef channel.id run.human)
  cut : ∀ run ∈ runs, run.severed = true → RevokedAt rows run.delegation
  unlinking : ∀ unlink ∈ unlinks, unlink.stage = .revoked →
    Collected rows (channelDelegationRef unlink.path unlink.user) unlink.revokes
  relinking : ∀ link ∈ links, link.stage = .revoked ∨ link.stage = .upserted → ∀ previous, link.replaces = some previous →
    Collected rows (channelDelegationRef link.path previous) link.revokes

/-- A chat has one user, and a run that is not cut off has the user of its chat. -/
structure Attached (identities : List (Text × Nat)) (runs : List Run) : Prop where
  distinct : (identities.map (·.1)).Nodup
  live : ∀ run ∈ runs, run.severed = false → (run.chat, run.human) ∈ identities

def State.Covered (channel : Channel) (s : State) : Prop :=
  ∀ chat user, s.identityOf chat = some user → s.linking chat user = true ∨ s.names channel user (s.agentOf channel chat) = true

structure Inv (channel : Channel) (s : State) : Prop where
  tied : Tied channel s.delegations s.messages s.runs s.unlinks s.links
  attached : Attached s.identities s.runs
  covered : s.Covered channel

theorem Attached.identityOf_iff {runs : List Run} (attached : Attached s.identities runs) {user : Nat} :
    s.identityOf chat = some user ↔ (chat, user) ∈ s.identities := by
  unfold State.identityOf
  rw [Option.map_eq_some_iff]
  simp only [find?_key_eq_some attached.distinct]
  constructor
  · rintro ⟨⟨_, _⟩, ⟨mem, rfl⟩, rfl⟩
    exact mem
  · exact fun mem => ⟨_, ⟨mem, rfl⟩, rfl⟩

/-! ### Changes of rows -/

section Tied

variable {rows rows' : List Delegation} {messages : List Message} {runs : List Run} {unlinks : List Unlink} {links : List Link}

theorem Tied.grow (tied : Tied channel rows messages runs unlinks links) (grows : Grows rows rows')
    (unlinking : ∀ unlink ∈ unlinks, unlink.stage = .revoked →
      Collected rows' (channelDelegationRef unlink.path unlink.user) unlink.revokes)
    (relinking : ∀ link ∈ links, link.stage = .revoked ∨ link.stage = .upserted → ∀ previous, link.replaces = some previous →
      Collected rows' (channelDelegationRef link.path previous) link.revokes) :
    Tied channel rows' messages runs unlinks links where
  loaded message mem index stage := by
    obtain ⟨human, known, at'⟩ := tied.loaded message mem index stage
    exact ⟨human, known, at'.grows grows⟩
  held run mem := (tied.held run mem).grows grows
  cut run mem severed := (tied.cut run mem severed).grows grows
  unlinking := unlinking
  relinking := relinking

theorem Tied.revokeAll (tied : Tied channel rows messages runs unlinks links) (ids : List Nat) :
    Tied channel (revokeAll rows ids) messages runs unlinks links :=
  tied.grow grows_revokeAll (fun unlink mem stage => (tied.unlinking unlink mem stage).revokeAll ids)
    (fun link mem stage previous replaces => (tied.relinking link mem stage previous replaces).revokeAll ids)

theorem Tied.sever (tied : Tied channel rows messages s.runs unlinks links) {cut : Run → Bool}
    (revoked : ∀ run ∈ s.runs, cut run = true → RevokedAt rows run.delegation) :
    Tied channel rows messages (s.sever cut) unlinks links := by
  refine ⟨tied.loaded, ?_, ?_, tied.unlinking, tied.relinking⟩
  · intro run mem
    obtain ⟨before, inside, rfl⟩ := mem_map.mp mem
    split <;> exact tied.held before inside
  · intro run mem severed
    obtain ⟨before, inside, rfl⟩ := mem_map.mp mem
    by_cases now : cut before = true
    · rw [if_pos now]
      exact revoked before inside now
    · rw [if_neg now] at severed ⊢
      exact tied.cut before inside severed

theorem Tied.setLink (tied : Tied channel rows messages runs unlinks s.links) {link' : Link}
    (found : s.links[index]? = some link)
    (collected : link'.stage = .revoked ∨ link'.stage = .upserted → ∀ previous, link'.replaces = some previous →
      Collected rows (channelDelegationRef link'.path previous) link'.revokes) :
    Tied channel rows messages runs unlinks (s.setLink index link').links := by
  refine ⟨tied.loaded, tied.held, tied.cut, tied.unlinking, ?_⟩
  intro other mem stage
  obtain rfl | ⟨place, -, there⟩ := Slots.mem_set found mem
  · exact collected stage
  · exact tied.relinking other (mem_of_getElem? there) stage

theorem Tied.setUnlink (tied : Tied channel rows messages runs s.unlinks links) {unlink' : Unlink}
    (found : s.unlinks[index]? = some unlink)
    (collected : unlink'.stage = .revoked → Collected rows (channelDelegationRef unlink'.path unlink'.user) unlink'.revokes) :
    Tied channel rows messages runs (s.setUnlink index unlink').unlinks links := by
  refine ⟨tied.loaded, tied.held, tied.cut, ?_, tied.relinking⟩
  intro other mem stage
  obtain rfl | ⟨place, -, there⟩ := Slots.mem_set found mem
  · exact collected stage
  · exact tied.unlinking other (mem_of_getElem? there) stage

theorem Tied.setMessage (tied : Tied channel rows s.messages runs unlinks links) {message' : Message}
    (found : s.messages[index]? = some message)
    (loaded : ∀ id, message'.stage = .loaded id ∨ message'.stage = .validated id →
      ∃ human, message'.human = some (some human) ∧ RefAt rows id (channelDelegationRef channel.id human)) :
    Tied channel rows (s.setMessage index message').messages runs unlinks links := by
  refine ⟨?_, tied.held, tied.cut, tied.unlinking, tied.relinking⟩
  intro other mem
  obtain rfl | ⟨place, -, there⟩ := Slots.mem_set found mem
  · exact loaded
  · exact tied.loaded other (mem_of_getElem? there)

end Tied

/-! ### Changes of chats -/

theorem agentOf_createSession (chat app name : Text) : (s.createSession chat app).agentOf channel name =
    if name = chat then app else s.agentOf channel name := by
  unfold State.agentOf State.sessionOf State.createSession
  rw [lookup_put]
  split <;> rfl

theorem agentOf_resetSession (chat name : Text) : (s.resetSession chat).agentOf channel name =
    if name = chat then channel.defaultAgent else s.agentOf channel name := by
  unfold State.agentOf State.sessionOf State.resetSession
  rw [lookup_drop]
  split <;> rfl

theorem State.Covered.settle (covered : s.Covered channel) (settles : s.settles channel chat app = true)
    (identities : s'.identities = s.identities) (links : s'.links = s.links)
    (delegations : s'.delegations = s.delegations)
    (agents : ∀ name, s'.agentOf channel name = if name = chat then app else s.agentOf channel name) :
    s'.Covered channel := by
  intro name user linked
  have linked : s.identityOf name = some user := by rwa [State.identityOf, identities] at linked
  have linking : s'.linking name user = s.linking name user := by unfold State.linking; rw [links]
  have names (app : Text) : s'.names channel user app = s.names channel user app := by unfold State.names; rw [delegations]
  rw [linking, names, agents]
  by_cases here : name = chat
  · subst here
    rw [if_pos rfl]
    unfold State.settles at settles
    rw [linked] at settles
    simpa using settles
  · rw [if_neg here]
    exact covered name user linked

theorem State.Covered.congr (covered : s.Covered channel) (identities : s'.identities = s.identities)
    (sessions : s'.sessions = s.sessions) (delegations : s'.delegations = s.delegations)
    (linking : ∀ chat user, s.linking chat user = true → s'.linking chat user = true) : s'.Covered channel := by
  intro chat user linked
  have linked : s.identityOf chat = some user := by rwa [State.identityOf, identities] at linked
  have names (app : Text) : s'.names channel user app = s.names channel user app := by unfold State.names; rw [delegations]
  have agent : s'.agentOf channel chat = s.agentOf channel chat := by unfold State.agentOf State.sessionOf; rw [sessions]
  rw [names, agent]
  exact (covered chat user linked).imp_left (linking chat user)

theorem names_revokeAll {ids : List Nat} {user : Nat} (names : s.names channel user app = true)
    (spared : ∀ index ∈ ids, ¬RefAt s.delegations index (channelDelegationRef channel.id user))
    (same : s'.delegations = revokeAll s.delegations ids) : s'.names channel user app = true := by
  obtain ⟨index, row, there, isRef, fields⟩ := names_iff.mp names
  refine names_iff.mpr ⟨index, row, ?_, isRef, fields⟩
  rw [same, revokeAll_getElem?, there, Option.map_some, if_neg]
  exact fun mem => spared index mem ⟨row, there, isRef⟩

theorem RefAt.user {rows : List Delegation} {path path' : Text} {user user' : Nat}
    (first : RefAt rows index (channelDelegationRef path user))
    (second : RefAt rows index (channelDelegationRef path' user')) : user = user' := by
  obtain ⟨row, there, same⟩ := first
  obtain ⟨row', there', same'⟩ := second
  cases there.symm.trans there'
  exact (Prod.mk.inj (same.symm.trans same')).2

theorem ref_of_spelled {path : Text} (spelled : State.spelled channel path = true) (user : Nat) :
    channelDelegationRef path user = channelDelegationRef channel.id user :=
  congrArg (·, user) (of_decide_eq_true spelled)

/-! ## Links -/

theorem Inv.setLink (inv : Inv channel s) {link' : Link} (found : s.links[index]? = some link)
    (goes : link.stage.underWay = true → link'.chat = link.chat ∧ link'.user = link.user ∧ link'.stage.underWay = true)
    (collected : link'.stage = .revoked ∨ link'.stage = .upserted → ∀ previous, link'.replaces = some previous →
      Collected s.delegations (channelDelegationRef link'.path previous) link'.revokes) :
    Inv channel (s.setLink index link') where
  tied := inv.tied.setLink found collected
  attached := inv.attached
  covered := inv.covered.congr rfl rfl rfl fun _ _ => linking_setLink found link' goes

theorem mem_sever {cut : Run → Bool} {run : Run} (mem : run ∈ s.sever cut) (live : run.severed = false) :
    run ∈ s.runs ∧ cut run = false := by
  obtain ⟨before, inside, rfl⟩ := mem_map.mp mem
  by_cases now : cut before = true
  · rw [if_pos now] at live
    cases live
  · rw [if_neg now]
    exact ⟨inside, Bool.eq_false_iff.mpr now⟩

theorem Inv.commitLink (inv : Inv channel s) (found : s.links[index]? = some link)
    (stage : link.stage = .upserted) (orderly : s.linkOrderly channel index link = true) :
    Inv channel (s.commitLink index link) := by
  simp only [State.linkOrderly, stage, Bool.and_eq_true, decide_eq_true_eq] at orderly
  obtain ⟨current, replaced⟩ := orderly
  -- the user that is replaced, and its rows
  have replacing {previous : Nat} (replaces : link.replaces = some previous) :
      s.only link.chat previous = true ∧ link.revoked = link.revokes ∧
        Collected s.delegations (channelDelegationRef channel.id previous) link.revokes := by
    rw [replaces, Option.all_some, Bool.and_eq_true] at replaced
    refine ⟨replaced.2, if_pos (by rw [replaces]; rfl), ?_⟩
    rw [← ref_of_spelled replaced.1]
    exact inv.tied.relinking link (mem_of_getElem? found) (.inr stage) previous replaces
  refine ⟨?_, ⟨?_, ?_⟩, ?_⟩
  · refine ((inv.tied.revokeAll link.revoked).sever ?_).setLink found (fun stage => nomatch stage)
    intro run mem cut
    rw [Bool.and_eq_true, decide_eq_true_eq, decide_eq_true_eq] at cut
    cases severed : run.severed with
    | true => exact (inv.tied.cut run mem severed).grows grows_revokeAll
    | false =>
      -- a live run of the chat is one of the user that is replaced
      have linked := inv.attached.identityOf_iff.mpr (inv.attached.live run mem severed)
      rw [cut.1, current] at linked
      have replaces : link.replaces = some run.human := by
        rw [Link.replaces, linked, Option.filter_some, if_pos (by simpa using cut.2)]
      obtain ⟨-, revoked, collected⟩ := replacing replaces
      rw [revoked]
      exact (inv.tied.held run mem).severed collected
  · rw [State.commitLink, map_append]
    refine List.Nodup.append (inv.attached.distinct.sublist (filter_sublist.map _)) (nodup_singleton _) ?_
    intro chat older new
    obtain ⟨row, mem, rfl⟩ := mem_map.mp older
    exact of_decide_eq_true (mem_filter.mp mem).2 (mem_singleton.mp new)
  · intro run mem live
    obtain ⟨inside, kept⟩ := mem_sever mem live
    by_cases here : run.chat = link.chat
    · simp only [here, decide_true, Bool.true_and, decide_eq_false_iff_not, ne_eq, not_not] at kept
      exact mem_append_right _ (by rw [here, kept]; exact mem_cons_self)
    · apply mem_append_left
      exact mem_filter.mpr ⟨inv.attached.live run inside live, by simpa using here⟩
  · intro chat user linked
    have identity : (s.commitLink index link).identityOf chat = if chat = link.chat then some link.user else s.identityOf chat :=
      lookup_put s.identities link.chat chat link.user
    rw [identity] at linked
    by_cases here : chat = link.chat
    · rw [if_pos here] at linked
      exact .inl (linking_iff.mpr ⟨index, _, Slots.set_self found, here.symm, Option.some.inj linked, rfl⟩)
    · rw [if_neg here] at linked
      have passed : s.linking chat user = true → (s.commitLink index link).linking chat user = true :=
        linking_setLink found { link with stage := .committed } (by rw [stage]; exact fun underWay => nomatch underWay)
      have agent : (s.commitLink index link).agentOf channel chat = s.agentOf channel chat := by
        unfold State.agentOf State.sessionOf State.commitLink
        dsimp only
        split
        · rw [lookup_drop, if_neg here]
        · rfl
      obtain linking | names := inv.covered chat user linked
      · exact .inl (passed linking)
      · cases replaces : link.replaces with
        | none =>
          have nothing : link.revoked = [] := if_neg (by rw [replaces]; exact Bool.false_ne_true)
          refine .inr (names_revokeAll (agent ▸ names) ?_ rfl)
          rw [nothing]
          exact fun _ mem => absurd mem not_mem_nil
        | some previous =>
          obtain ⟨only, revoked, collected⟩ := replacing replaces
          by_cases same : user = previous
          · subst same
            have other := all_eq_true.mp only _ (inv.attached.identityOf_iff.mp linked)
            simp only [ne_eq, not_true_eq_false, decide_false, here, Bool.false_or] at other
            exact .inl (passed other)
          · refine .inr (names_revokeAll (agent ▸ names) ?_ rfl)
            intro id mem at'
            exact same (at'.user (collected.own id (revoked ▸ mem)))

/-- The delegations of the user of a link are revoked before its new one is made. -/
theorem Inv.clear (inv : Inv channel s) (found : s.links[index]? = some link) (stage : link.stage = .resolved)
    (orderly : s.linkOrderly channel index link = true) :
    Inv channel { s.setLink index { link with stage := .cleared } with
      delegations := revokeAll s.delegations (activeIds s.delegations (channelDelegationRef link.path link.user))
      runs := s.sever fun run => run.chat = link.chat && run.human = link.user } := by
  simp only [State.linkOrderly, stage, Bool.and_eq_true] at orderly
  obtain ⟨spelled, only⟩ := orderly
  rw [ref_of_spelled spelled]
  refine ⟨?_, ⟨inv.attached.distinct, ?_⟩, ?_⟩
  · refine ((inv.tied.revokeAll _).sever ?_).setLink found (fun stage => nomatch stage)
    intro run mem cut
    rw [Bool.and_eq_true, decide_eq_true_eq, decide_eq_true_eq] at cut
    have held := inv.tied.held run mem
    rw [cut.2] at held
    exact held.severed collected_activeIds
  · intro run mem live
    exact inv.attached.live run (mem_sever mem live).1 live
  · intro chat user linked
    have passed : s.linking chat user = true → (s.setLink index { link with stage := .cleared }).linking chat user = true :=
      linking_setLink found { link with stage := .cleared } fun _ => ⟨rfl, rfl, rfl⟩
    obtain linking | names := inv.covered chat user linked
    · exact .inl (passed linking)
    · by_cases same : user = link.user
      · -- the link itself is what covers its own chat
        subst same
        have other := all_eq_true.mp only _ (inv.attached.identityOf_iff.mp linked)
        simp only [ne_eq, not_true_eq_false, decide_false, Bool.false_or, Bool.or_eq_true, decide_eq_true_eq] at other
        obtain here | linking := other
        · exact .inl (linking_iff.mpr ⟨index, _, Slots.set_self found, here.symm, rfl, rfl⟩)
        · exact .inl (passed linking)
      · refine .inr (names_revokeAll names ?_ rfl)
        intro id mem at'
        exact same (at'.user (collected_activeIds.own id mem))

theorem names_create {path user user' app app'} (names : s.names channel user' app' = true)
    (same : s'.delegations = create s.delegations (channelDelegationRef path user) user app) :
    s'.names channel user' app' = true := by
  obtain ⟨place, row, there, isRef, isUser, fields⟩ := names_iff.mp names
  apply names_iff.mpr
  rw [same]
  obtain ⟨index, held, found, heldRef, -, -, created⟩ | ⟨-, created⟩ :=
    create_cases s.delegations (channelDelegationRef path user) user app
  · rw [created]
    by_cases here : place = index
    · subst here
      cases found.symm.trans there
      exact ⟨place, _, Slots.set_self found, isRef, (Prod.mk.inj (heldRef.symm.trans isRef)).2, fields⟩
    · exact ⟨place, row, (Slots.set_iff found).mpr (.inr ⟨here, there⟩), isRef, isUser, fields⟩
  · rw [created]
    exact ⟨place, row, Slots.concat_iff.mpr (.inr there), isRef, isUser, fields⟩

theorem created_names (spelled : State.spelled channel link.path = true)
    (delegated : s.delegatedApp link = some app)
    (same : s'.delegations = create s.delegations (channelDelegationRef link.path link.user) link.user link.app) :
    s'.names channel link.user app = true := by
  apply names_iff.mpr
  rw [same, ← ref_of_spelled spelled]
  unfold State.delegatedApp at delegated
  obtain ⟨index, held, found, heldRef, active, first, created⟩ | ⟨first, created⟩ :=
    create_cases s.delegations (channelDelegationRef link.path link.user) link.user link.app
  · rw [created]
    rw [first] at delegated
    dsimp only at delegated
    rw [found, Option.map_some] at delegated
    exact ⟨index, _, Slots.set_self found, heldRef, rfl, Option.some.inj delegated, active⟩
  · rw [created]
    rw [first] at delegated
    exact ⟨_, _, getElem?_concat_length, rfl, rfl, Option.some.inj delegated, rfl⟩

theorem Inv.delegate (inv : Inv channel s) (found : s.links[index]? = some link)
    (stage : link.stage = .cleared) (orderly : s.linkOrderly channel index link = true) :
    Inv channel { s.setLink index { link with stage := .ended } with
      delegations := create s.delegations (channelDelegationRef link.path link.user) link.user link.app } := by
  simp only [State.linkOrderly, stage, Bool.and_eq_true, Bool.not_eq_true', Bool.or_eq_true, decide_eq_true_eq] at orderly
  obtain ⟨⟨spelled, calm⟩, settled⟩ := orderly
  have apart {path : Text} {user : Nat} (severing : user = link.user → s.severing link.user = true) :
      channelDelegationRef path user ≠ channelDelegationRef link.path link.user := by
    intro same
    exact nomatch (severing (Prod.mk.inj same).2).symm.trans calm
  refine ⟨?_, inv.attached, ?_⟩
  · refine (inv.tied.grow grows_create ?_ ?_).setLink found (fun stage => nomatch stage)
    · intro unlink mem revoked
      refine (inv.tied.unlinking unlink mem revoked).create (apart fun same => ?_)
      rw [State.severing, Bool.or_eq_true, any_eq_true]
      exact .inl ⟨unlink, mem, by simp [revoked, same]⟩
    · intro other mem revoked previous replaces
      refine (inv.tied.relinking other mem revoked previous replaces).create (apart fun same => ?_)
      rw [State.severing, Bool.or_eq_true, any_eq_true, any_eq_true]
      exact .inr ⟨other, mem, by simp [revoked, replaces, same]⟩
  · intro chat user linked
    obtain linking | names := inv.covered chat user linked
    · obtain ⟨rfl, rfl, -⟩ | beside := linking_cases found linking
      · obtain (other | beside) | delegated := settled
        · exact absurd linked other
        · exact .inl beside
        · exact .inr (created_names spelled delegated rfl)
      · exact .inl beside
    · exact .inr (names_create names rfl)

theorem Inv.advanceLink (inv : Inv channel s) (found : s.links[index]? = some link)
    (orderly : s.linkOrderly channel index link = true)
    (advanced : s.advanceLink channel index link = some s') : Inv channel s' := by
  have upserted (collected : ∀ previous, link.replaces = some previous →
      Collected s.delegations (channelDelegationRef link.path previous) link.revokes) (apart : link.stage.underWay = false)
      (upserted : s.upsert index link = some s') : Inv channel s' := by
    unfold State.upsert at upserted
    split at upserted
    · cases upserted
    · cases upserted
      exact inv.setLink found (fun underWay => nomatch underWay.symm.trans apart) fun _ => collected
  unfold State.advanceLink at advanced
  cases stage : link.stage with
  | opened =>
    simp only [stage] at advanced
    split at advanced
    · cases advanced
    · cases advanced
      exact inv.setLink found (by rw [stage]; exact fun underWay => nomatch underWay) fun stage => by simp at stage
  | read =>
    simp only [stage] at advanced
    split at advanced
    · next replaces =>
      exact upserted (by rw [replaces]; nofun) (by rw [stage]; rfl) advanced
    · cases advanced
      exact inv.setLink found (by rw [stage]; exact fun underWay => nomatch underWay) fun stage => by simp at stage
  | dropped =>
    simp only [stage] at advanced
    obtain ⟨previous, replaces, advanced⟩ := Option.bind_eq_some_iff.mp advanced
    split at advanced
    · cases advanced
    · cases advanced
      refine inv.setLink found (by rw [stage]; exact fun underWay => nomatch underWay) fun _ other same => ?_
      cases replaces.symm.trans same
      exact collected_activeIds
  | revoked =>
    simp only [stage] at advanced
    exact upserted (inv.tied.relinking link (mem_of_getElem? found) (.inl stage)) (by rw [stage]; rfl) advanced
  | upserted =>
    simp only [stage] at advanced
    cases advanced
    exact inv.commitLink found stage orderly
  | committed =>
    simp only [stage] at advanced
    split at advanced
    · cases advanced
      exact inv.setLink found (fun _ => ⟨rfl, rfl, rfl⟩) fun stage => by simp at stage
    · cases advanced
      exact inv.setLink found (fun _ => ⟨rfl, rfl, rfl⟩) fun stage => by simp at stage
  | sessionless =>
    simp only [stage] at advanced
    cases advanced
    simp only [State.linkOrderly, stage] at orderly
    have moved : Inv channel (s.setLink index { link with stage := .resolved, app := channel.defaultAgent }) :=
      inv.setLink found (fun _ => ⟨rfl, rfl, rfl⟩) fun stage => by simp at stage
    refine ⟨moved.tied, moved.attached, ?_⟩
    have settles : (s.setLink index { link with stage := .resolved, app := channel.defaultAgent }).settles channel link.chat
        channel.defaultAgent = true := by
      unfold State.settles at orderly ⊢
      change Option.all _ (s.identityOf link.chat) = true
      cases linked : s.identityOf link.chat with
      | none => rfl
      | some user =>
        rw [linked] at orderly
        simp only [Option.all_some, Bool.or_eq_true] at orderly ⊢
        apply orderly.imp_left
        exact linking_setLink found { link with stage := .resolved, app := channel.defaultAgent } fun _ => ⟨rfl, rfl, rfl⟩
    exact moved.covered.settle settles rfl rfl rfl (agentOf_createSession link.chat channel.defaultAgent)
  | resolved =>
    simp only [stage] at advanced
    split at advanced
    · cases advanced
    · cases advanced
      exact inv.clear found stage orderly
  | cleared =>
    simp only [stage] at advanced
    split at advanced
    · cases advanced
    · cases advanced
      exact inv.delegate found stage orderly
  | ended =>
    simp only [stage] at advanced
    cases advanced

/-! ## Unlinks -/

theorem Inv.setUnlink (inv : Inv channel s) {unlink' : Unlink} (found : s.unlinks[index]? = some unlink)
    (collected : unlink'.stage = .revoked →
      Collected s.delegations (channelDelegationRef unlink'.path unlink'.user) unlink'.revokes) :
    Inv channel (s.setUnlink index unlink') :=
  ⟨inv.tied.setUnlink found collected, inv.attached, inv.covered.congr rfl rfl rfl fun _ _ => id⟩

theorem Inv.commitUnlink (inv : Inv channel s) (found : s.unlinks[index]? = some unlink)
    (stage : unlink.stage = .revoked) (spelled : State.spelled channel unlink.path = true)
    (complete : ∀ row ∈ s.identities, row.2 = unlink.user → row.1 ∈ unlink.chats ∨ s.linking row.1 unlink.user = true) :
    Inv channel (s.commitUnlink index unlink) := by
  have collected := inv.tied.unlinking unlink (mem_of_getElem? found) stage
  rw [ref_of_spelled spelled] at collected
  have attached : Attached (s.commitUnlink index unlink).identities (s.commitUnlink index unlink).runs := by
    refine ⟨inv.attached.distinct.sublist (filter_sublist.map _), ?_⟩
    intro run mem live
    obtain ⟨inside, other⟩ := mem_sever mem live
    refine mem_filter.mpr ⟨inv.attached.live run inside live, ?_⟩
    rw [other, Bool.and_false]
    rfl
  refine ⟨?_, attached, ?_⟩
  · refine ((inv.tied.revokeAll unlink.revokes).sever ?_).setUnlink found (fun stage => nomatch stage)
    intro run mem cut
    have held := inv.tied.held run mem
    rw [of_decide_eq_true cut] at held
    exact held.severed collected
  · intro chat user linked
    obtain ⟨mem, kept⟩ := mem_filter.mp (attached.identityOf_iff.mp linked)
    by_cases same : user = unlink.user
    · subst same
      -- a chat that was not found by the deletion is still being linked
      obtain found | linking := complete _ mem rfl
      · simp [found] at kept
      · exact .inl linking
    · refine (inv.covered chat user (inv.attached.identityOf_iff.mpr mem)).imp_right fun names => ?_
      apply names_revokeAll names _ rfl
      intro id among at'
      exact same (at'.user (collected.own id among))

theorem Inv.advanceUnlink (inv : Inv channel s) (found : s.unlinks[index]? = some unlink)
    (orderly : unlink.stage = .revoked → State.spelled channel unlink.path = true ∧
      ∀ row ∈ s.identities, row.2 = unlink.user → row.1 ∈ unlink.chats ∨ s.linking row.1 unlink.user = true)
    (advanced : s.advanceUnlink index unlink = some s') : Inv channel s' := by
  unfold State.advanceUnlink at advanced
  cases stage : unlink.stage with
  | opened =>
    simp only [stage] at advanced
    split at advanced
    · cases advanced
    · split at advanced
      · cases advanced
        exact inv.setUnlink found (fun stage => nomatch stage)
      · cases advanced
        exact inv.setUnlink found (fun stage => nomatch stage)
  | deleted =>
    simp only [stage] at advanced
    split at advanced
    · cases advanced
    · cases advanced
      exact inv.setUnlink found fun _ => collected_activeIds
  | revoked =>
    simp only [stage] at advanced
    cases advanced
    obtain ⟨spelled, complete⟩ := orderly stage
    exact inv.commitUnlink found stage spelled complete
  | ended =>
    simp only [stage] at advanced
    cases advanced

/-! ## Messages and runs -/

theorem Inv.setMessage (inv : Inv channel s) {message' : Message} (found : s.messages[index]? = some message)
    (loaded : ∀ id, message'.stage = .loaded id ∨ message'.stage = .validated id →
      ∃ human, message'.human = some (some human) ∧ RefAt s.delegations id (channelDelegationRef channel.id human)) :
    Inv channel (s.setMessage index message') :=
  ⟨inv.tied.setMessage found loaded, inv.attached, inv.covered.congr rfl rfl rfl fun _ _ => id⟩

theorem findDelegation_some {human : Nat} {id : Nat} (found : s.findDelegation channel human app = some id) :
    RefAt s.delegations id (channelDelegationRef channel.id human) := by
  obtain ⟨bound, fits, -⟩ := findIdx?_eq_some_iff_getElem.mp found
  simp only [Bool.and_eq_true, decide_eq_true_eq] at fits
  exact ⟨_, getElem?_eq_getElem bound, fits.1.1.1⟩

theorem validate_iff {human : Nat} {id : Nat} :
    s.validate chat human app id gate = true ↔ gate = true ∧ s.identityOf chat = some human ∧
      ∃ row, s.delegations[id]? = some row ∧ row.delegator = human ∧ row.app = app ∧ row.revoked = false := by
  simp [State.validate, Option.any_eq_true, and_assoc]

/-- What a message does next: it goes on, ends, or starts a run that it has validated. -/
theorem advanceMessage_cases (advanced : s.advanceMessage channel index message gate = some s') :
    (∃ stage, s' = s.setMessage index { message with stage := stage } ∧
        ∀ id, stage = .loaded id ∨ stage = .validated id →
          message.stage = .loaded id ∨
            ∃ human app, message.human = some (some human) ∧ s.findDelegation channel human app = some id) ∨
      ∃ human app id, message.stage = .validated id ∧ message.human = some (some human) ∧
        s.validate message.chat human app id gate = true ∧
        s' = { s.setMessage index { message with stage := .ended } with runs := s.runs ++ [⟨message.chat, human, app, id, false⟩] } := by
  unfold State.advanceMessage at advanced
  dsimp only at advanced
  split at advanced
  · next app human _ _ known =>
    split at advanced
    · cases advanced
      exact .inl ⟨.ended, rfl, fun id stage => by simp at stage⟩
    · next id found =>
      cases advanced
      refine .inl ⟨.loaded id, rfl, fun other stage => ?_⟩
      obtain rfl : id = other := by simpa using stage
      exact .inr ⟨human, app, known, found⟩
  · cases advanced
    exact .inl ⟨.ended, rfl, fun id stage => by simp at stage⟩
  · next id app human stage _ known =>
    split at advanced
    · cases advanced
      refine .inl ⟨.validated id, rfl, fun other same => ?_⟩
      obtain rfl : id = other := by simpa using same
      exact .inl stage
    · cases advanced
      exact .inl ⟨.ended, rfl, fun id stage => by simp at stage⟩
  · next id app human stage _ known =>
    split at advanced
    · next valid =>
      cases advanced
      exact .inr ⟨human, app, id, stage, known, valid, rfl⟩
    · cases advanced
      exact .inl ⟨.ended, rfl, fun id stage => by simp at stage⟩
  · cases advanced

theorem Inv.advanceMessage (inv : Inv channel s) (found : s.messages[index]? = some message)
    (advanced : s.advanceMessage channel index message gate = some s') : Inv channel s' := by
  have loaded := inv.tied.loaded message (mem_of_getElem? found)
  obtain ⟨stage, rfl, known⟩ | ⟨human, app, id, stage, known, valid, rfl⟩ := advanceMessage_cases advanced
  · refine inv.setMessage found fun id now => ?_
    obtain before | ⟨human, app, asked, there⟩ := known id now
    · exact loaded id (.inl before)
    · exact ⟨human, asked, findDelegation_some there⟩
  · have ended : Inv channel (s.setMessage index { message with stage := .ended }) :=
      inv.setMessage found fun id stage => by simp at stage
    obtain ⟨-, linked, -⟩ := validate_iff.mp valid
    obtain ⟨human', known', at'⟩ := loaded id (.inr stage)
    cases Option.some.inj (known.symm.trans known')
    refine ⟨⟨ended.tied.loaded, ?_, ?_, ended.tied.unlinking, ended.tied.relinking⟩, ⟨inv.attached.distinct, ?_⟩, ?_⟩
    · intro run mem
      obtain older | new := mem_append.mp mem
      · exact inv.tied.held run older
      · obtain rfl := mem_singleton.mp new
        exact at'
    · intro run mem severed
      obtain older | new := mem_append.mp mem
      · exact inv.tied.cut run older severed
      · obtain rfl := mem_singleton.mp new
        cases severed
    · intro run mem live
      obtain older | new := mem_append.mp mem
      · exact inv.attached.live run older live
      · obtain rfl := mem_singleton.mp new
        exact inv.attached.identityOf_iff.mp linked
    · exact inv.covered.congr rfl rfl rfl fun _ _ linking => linking

theorem Inv.readSession (inv : Inv channel s) (found : s.messages[index]? = some message)
    (orderly : message.session = .absent → s.settles channel message.chat channel.defaultAgent = true)
    (advanced : s.readSession channel index message = some s') : Inv channel s' := by
  unfold State.readSession at advanced
  split at advanced
  · next reading _ =>
    have moved (session : SessionRead) : Inv channel (s.setMessage index { message with session := session }) :=
      inv.setMessage found fun id stage => by simp [reading] at stage
    split at advanced
    · cases advanced
      exact moved _
    · cases advanced
      exact moved _
  · next reading absent =>
    have moved : Inv channel (s.setMessage index { message with session := .app channel.defaultAgent }) :=
      inv.setMessage found fun id stage => by simp [reading] at stage
    cases advanced
    refine ⟨moved.tied, moved.attached, ?_⟩
    exact inv.covered.settle (orderly absent) rfl rfl rfl (agentOf_createSession message.chat channel.defaultAgent)
  · cases advanced

theorem Inv.readInvoker (inv : Inv channel s) (found : s.messages[index]? = some message)
    (advanced : s.readInvoker index message = some s') : Inv channel s' := by
  unfold State.readInvoker at advanced
  split at advanced
  · next reading _ =>
    cases advanced
    exact inv.setMessage found fun id stage => by simp [reading] at stage
  · cases advanced

theorem linking_append {user : Nat} (linking : s.linking chat user = true) :
    State.linking { s with links := s.links ++ [link] } chat user = true := by
  rw [State.linking, any_append, Bool.or_eq_true]
  exact .inl linking

theorem Inv.step (inv : Inv channel s) (stepped : step channel s action = some s')
    (orderly : Orderly channel s action) : Inv channel s' := by
  cases action with
  | tick seconds =>
    cases stepped
    exact ⟨inv.tied, inv.attached, inv.covered⟩
  | createLinkToken path token user =>
    cases stepped
    exact ⟨inv.tied, inv.attached, inv.covered⟩
  | link path chat token =>
    simp only [ChannelLinks.step] at stepped
    split at stepped
    · cases stepped
      exact inv
    · split at stepped
      · cases stepped
        exact ⟨inv.tied, inv.attached, inv.covered⟩
      · cases stepped
        refine ⟨⟨inv.tied.loaded, inv.tied.held, inv.tied.cut, inv.tied.unlinking, ?_⟩, inv.attached, ?_⟩
        · intro link mem stage
          obtain older | new := mem_append.mp mem
          · exact inv.tied.relinking link older stage
          · obtain rfl := mem_singleton.mp new
            simp at stage
        · exact inv.covered.congr rfl rfl rfl fun _ _ => linking_append
  | advanceLink index =>
    obtain ⟨link, found, advanced⟩ := Option.bind_eq_some_iff.mp stepped
    exact inv.advanceLink found (orderly link found) advanced
  | failLink index =>
    obtain ⟨link, found, failed⟩ := Option.bind_eq_some_iff.mp stepped
    split at failed
    · cases failed
    · cases failed
      refine ⟨inv.tied.setLink found (fun stage => by simp at stage), inv.attached, ?_⟩
      intro chat user linked
      obtain linking | names := inv.covered chat user linked
      · obtain ⟨rfl, rfl, underWay⟩ | beside := linking_cases found linking
        · exact orderly link found underWay linked
        · exact .inl beside
      · exact .inr names
  | unlink path user =>
    cases stepped
    refine ⟨⟨inv.tied.loaded, inv.tied.held, inv.tied.cut, ?_, inv.tied.relinking⟩, inv.attached, inv.covered⟩
    intro unlink mem stage
    obtain older | new := mem_append.mp mem
    · exact inv.tied.unlinking unlink older stage
    · obtain rfl := mem_singleton.mp new
      cases stage
  | advanceUnlink index =>
    obtain ⟨unlink, found, advanced⟩ := Option.bind_eq_some_iff.mp stepped
    exact inv.advanceUnlink found (orderly unlink found) advanced
  | failUnlink index =>
    obtain ⟨unlink, found, failed⟩ := Option.bind_eq_some_iff.mp stepped
    split at failed
    · cases failed
    · cases failed
      exact inv.setUnlink found (fun stage => nomatch stage)
  | switchAgent chat app =>
    cases stepped
    exact ⟨inv.tied, inv.attached, inv.covered.settle orderly rfl rfl rfl (agentOf_createSession chat app)⟩
  | newSession chat =>
    cases stepped
    exact ⟨inv.tied, inv.attached, inv.covered.settle orderly rfl rfl rfl (agentOf_resetSession chat)⟩
  | message chat =>
    cases stepped
    refine ⟨⟨?_, inv.tied.held, inv.tied.cut, inv.tied.unlinking, inv.tied.relinking⟩, inv.attached, inv.covered⟩
    intro message mem
    obtain older | new := mem_append.mp mem
    · exact inv.tied.loaded message older
    · obtain rfl := mem_singleton.mp new
      exact fun id stage => by simp at stage
  | readSession index =>
    obtain ⟨message, found, advanced⟩ := Option.bind_eq_some_iff.mp stepped
    exact inv.readSession found (orderly message found) advanced
  | readInvoker index =>
    obtain ⟨message, found, advanced⟩ := Option.bind_eq_some_iff.mp stepped
    exact inv.readInvoker found advanced
  | advanceMessage index gate =>
    obtain ⟨message, found, advanced⟩ := Option.bind_eq_some_iff.mp stepped
    exact inv.advanceMessage found advanced
  | failMessage index =>
    obtain ⟨message, found, rfl⟩ := Option.map_eq_some_iff.mp stepped
    exact inv.setMessage found fun id stage => by simp at stage

/-! ## Starts of runs -/

theorem upsert_runs (upserted : s.upsert index link = some s') : s'.runs.length = s.runs.length := by
  unfold State.upsert at upserted
  split at upserted
  · cases upserted
  · rw [← Option.some.inj upserted]
    rfl

theorem sever_length (cut : Run → Bool) : (s.sever cut).length = s.runs.length := length_map _

theorem advanceLink_runs (advanced : s.advanceLink channel index link = some s') :
    s'.runs.length = s.runs.length := by
  unfold State.advanceLink at advanced
  cases stage : link.stage with
  | opened =>
    simp only [stage] at advanced
    split at advanced
    · cases advanced
    · rw [← Option.some.inj advanced]
      rfl
  | read =>
    simp only [stage] at advanced
    split at advanced
    · exact upsert_runs advanced
    · rw [← Option.some.inj advanced]
      rfl
  | dropped =>
    simp only [stage] at advanced
    obtain ⟨previous, -, advanced⟩ := Option.bind_eq_some_iff.mp advanced
    split at advanced
    · cases advanced
    · rw [← Option.some.inj advanced]
      rfl
  | revoked =>
    simp only [stage] at advanced
    exact upsert_runs advanced
  | upserted =>
    simp only [stage] at advanced
    rw [← Option.some.inj advanced]
    exact sever_length _
  | committed =>
    simp only [stage] at advanced
    split at advanced
    all_goals
      rw [← Option.some.inj advanced]
      rfl
  | sessionless =>
    simp only [stage] at advanced
    rw [← Option.some.inj advanced]
    rfl
  | resolved =>
    simp only [stage] at advanced
    split at advanced
    · cases advanced
    · rw [← Option.some.inj advanced]
      exact sever_length _
  | cleared =>
    simp only [stage] at advanced
    split at advanced
    · cases advanced
    · rw [← Option.some.inj advanced]
      rfl
  | ended =>
    simp only [stage] at advanced
    cases advanced

theorem advanceUnlink_runs (advanced : s.advanceUnlink index unlink = some s') :
    s'.runs.length = s.runs.length := by
  unfold State.advanceUnlink at advanced
  cases stage : unlink.stage with
  | opened =>
    simp only [stage] at advanced
    split at advanced
    · cases advanced
    · split at advanced
      all_goals
        rw [← Option.some.inj advanced]
        rfl
  | deleted =>
    simp only [stage] at advanced
    split at advanced
    · cases advanced
    · rw [← Option.some.inj advanced]
      rfl
  | revoked =>
    simp only [stage] at advanced
    rw [← Option.some.inj advanced]
    exact sever_length _
  | ended =>
    simp only [stage] at advanced
    cases advanced

/-- Only a message that is validated once more starts a run. -/
theorem step_runs (stepped : step channel s action = some s') :
    s'.runs.length = s.runs.length ∨
      ∃ message gate human app id, message ∈ s.messages ∧ message.stage = .validated id ∧ message.human = some (some human) ∧
        s.validate message.chat human app id gate = true ∧ s'.runs = s.runs ++ [⟨message.chat, human, app, id, false⟩] := by
  cases action with
  | link path chat token =>
    simp only [step] at stepped
    left
    split at stepped
    · rw [← Option.some.inj stepped]
    · split at stepped
      all_goals rw [← Option.some.inj stepped]
  | advanceLink index =>
    obtain ⟨link, -, advanced⟩ := Option.bind_eq_some_iff.mp stepped
    exact .inl (advanceLink_runs advanced)
  | failLink index =>
    obtain ⟨link, -, failed⟩ := Option.bind_eq_some_iff.mp stepped
    split at failed
    · cases failed
    · rw [← Option.some.inj failed]
      exact .inl rfl
  | advanceUnlink index =>
    obtain ⟨unlink, -, advanced⟩ := Option.bind_eq_some_iff.mp stepped
    exact .inl (advanceUnlink_runs advanced)
  | failUnlink index =>
    obtain ⟨unlink, -, failed⟩ := Option.bind_eq_some_iff.mp stepped
    split at failed
    · cases failed
    · rw [← Option.some.inj failed]
      exact .inl rfl
  | readSession index =>
    obtain ⟨message, -, advanced⟩ := Option.bind_eq_some_iff.mp stepped
    left
    unfold State.readSession at advanced
    split at advanced
    · split at advanced
      all_goals
        rw [← Option.some.inj advanced]
        rfl
    · rw [← Option.some.inj advanced]
      rfl
    · cases advanced
  | readInvoker index =>
    obtain ⟨message, -, advanced⟩ := Option.bind_eq_some_iff.mp stepped
    left
    unfold State.readInvoker at advanced
    split at advanced
    · rw [← Option.some.inj advanced]
      rfl
    · cases advanced
  | advanceMessage index gate =>
    obtain ⟨message, found, advanced⟩ := Option.bind_eq_some_iff.mp stepped
    obtain ⟨stage, rfl, -⟩ | ⟨human, app, id, stage, known, valid, rfl⟩ := advanceMessage_cases advanced
    · exact .inl rfl
    · exact .inr ⟨message, gate, human, app, id, mem_of_getElem? found, stage, known, valid, rfl⟩
  | failMessage index =>
    obtain ⟨message, -, rfl⟩ := Option.map_eq_some_iff.mp stepped
    exact .inl rfl
  | tick seconds | createLinkToken path token user | unlink path user | switchAgent chat app | newSession chat | message chat =>
    rw [← Option.some.inj stepped]
    exact .inl rfl

/-- A run starts as the user of its chat, under an active delegation of a link of that
    user. -/
theorem Inv.authorized (inv : Inv channel s) {run : Run}
    (stepped : ChannelLinks.step channel s action = some s') (started : s'.runs = s.runs ++ [run]) :
    Authorized channel s run := by
  obtain same | ⟨message, gate, human, app, id, mem, stage, known, valid, appended⟩ := step_runs stepped
  · rw [started, length_append, length_singleton] at same
    omega
  · obtain rfl := singleton_inj.mp (append_cancel_left (started.symm.trans appended))
    obtain ⟨-, linked, row, there, isUser, isApp, active⟩ := validate_iff.mp valid
    obtain ⟨human', known', row', there', isRef⟩ := inv.tied.loaded message mem id (.inr stage)
    cases Option.some.inj (known.symm.trans known')
    cases there.symm.trans there'
    exact ⟨linked, row, there, isRef, isUser, isApp, active⟩

theorem Inv.upheld (inv : Inv channel s) : s.Upheld channel where
  starts _ _ _ stepped started := inv.authorized stepped started
  severed run mem severed gate := by
    obtain ⟨row, there, revoked⟩ := inv.tied.cut run mem severed
    apply Bool.eq_false_iff.mpr
    intro valid
    obtain ⟨-, -, row', there', -, -, active⟩ := validate_iff.mp valid
    cases there.symm.trans there'
    exact nomatch active.symm.trans revoked
  covered := inv.covered

theorem State.Start.inv (start : s.Start) : Inv channel s := by
  obtain ⟨identities, links, unlinks, messages, runs⟩ := start
  refine ⟨⟨?_, ?_, ?_, ?_, ?_⟩, ⟨?_, ?_⟩, ?_⟩
  · simp [messages]
  · simp [runs]
  · simp [runs]
  · simp [unlinks]
  · simp [links]
  · simp [identities]
  · simp [runs]
  · intro chat user linked
    simp [State.identityOf, identities] at linked

/-- In every run of orderly steps, a run starts as the user of its chat and ends with its
    link, and every linked chat has a delegation of its user to its agent. -/
theorem authority_upheld (channel : Channel) {s last : State} {actions : List Action} (start : s.Start)
    (ran : Runs.run (step channel) s actions = some last) (orderly : Runs.Along (step channel) (Orderly channel) s actions) :
    last.Upheld channel := by
  have inv : Inv channel last := Runs.run_along (fun inv stepped meets => Inv.step inv stepped meets) start.inv ran orderly
  exact inv.upheld

/-! Ann and Bob link their chats and write, and Ann unlinks. -/

def office : Channel := ⟨"c0", "telegram", "assistant"⟩

def empty : State := ⟨[], [], [], [], [], [], [], [], 0⟩

theorem empty_start : empty.Start := ⟨rfl, rfl, rfl, rfl, rfl⟩

/-- A user links a chat that nobody has, from the token to the delegation. -/
def linked (index : Nat) (chat : String) (user : Nat) : List Action :=
  [.createLinkToken "c0" "link_1" user, .link "c0" chat.toList "link_1", .advanceLink index, .advanceLink index,
    .advanceLink index, .advanceLink index, .advanceLink index, .advanceLink index, .advanceLink index]

def visit : List Action :=
  linked 0 "ann" 1 ++ linked 1 "bob" 2 ++ [Action.message "bob", .readSession 0, .readInvoker 0, .advanceMessage 0 true,
    .advanceMessage 0 true, .advanceMessage 0 true, .message "ann", .readSession 1, .readInvoker 1, .advanceMessage 1 true,
    .advanceMessage 1 true, .advanceMessage 1 true, .unlink "C0" 1, .advanceUnlink 0, .advanceUnlink 0, .advanceUnlink 0]

theorem visit_upheld : ∃ last, Runs.run (step office) empty visit = some last ∧
    last.runs = [⟨"bob".toList, 2, "assistant".toList, 1, false⟩, ⟨"ann".toList, 1, "assistant".toList, 0, true⟩] ∧
      last.Upheld office := by
  have read : (Runs.run (step office) empty visit).map (·.runs) =
      some [⟨"bob".toList, 2, "assistant".toList, 1, false⟩, ⟨"ann".toList, 1, "assistant".toList, 0, true⟩] := by
    decide +kernel
  obtain ⟨last, ran, runs⟩ := Option.map_eq_some_iff.mp read
  exact ⟨last, ran, runs, authority_upheld office empty_start ran (by decide +kernel)⟩

/-- Bob takes over one of two chats of Ann. -/
def takeover : List Action :=
  linked 0 "phone" 1 ++ linked 1 "desk" 1 ++ linked 2 "phone" 2 ++ [Action.advanceLink 2, .advanceLink 2]

/-- The other one is linked to her still, by a link that is finished, and she has no active
    delegation. -/
theorem desk_mute : ∃ last, Runs.run (step office) empty takeover = some last ∧
    last.identityOf "desk".toList = some 1 ∧ last.links.map (·.stage) = [.ended, .ended, .ended] ∧
    (last.delegations.filter fun row => row.delegator = 1 && !row.revoked) = [] := by
  have read : (Runs.run (step office) empty takeover).map (fun last =>
      (last.identityOf "desk".toList, last.links.map (·.stage), last.delegations.filter fun row => row.delegator = 1 && !row.revoked)) =
        some (some 1, [.ended, .ended, .ended], []) := by decide +kernel
  obtain ⟨last, ran, shown⟩ := Option.map_eq_some_iff.mp read
  obtain ⟨identity, rest⟩ := Prod.mk.inj shown
  obtain ⟨stages, active⟩ := Prod.mk.inj rest
  exact ⟨last, ran, identity, stages, active⟩

end RootCx.ChannelLinks
