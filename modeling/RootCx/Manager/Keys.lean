import Mathlib
import RootCx.Authority.Perms
import RootCx.Lib.JsonText

/-! # The keys of worker processes

`worker_manager.rs` keeps one process for each application, principal and invocation
scope, and finds it by a text that is put together from their parts.  Two of them share
a process only when the texts are the same, so the text has to give away all parts.

`printable` is the table of characters that Rust's `Debug` prints as they are.
-/

namespace RootCx.Manager

open RootCx.Text Authority List

/-! ## The source functions -/

/-- A UUID in its canonical form. -/
structure Uuid where
  text : Text
  length : text.length = 36
  hex : text.all (fun c => c.isDigit || c ∈ ['a', 'b', 'c', 'd', 'e', 'f', '-']) = true

/-- The part of an identity that a cached worker can have. -/
structure ContextState where
  userId : Option Uuid
  isDelegated : Bool
  effectivePerms : List Text
  connectionId : Option Text
  auditActorId : Option Uuid
  auditDelegatorId : Option Uuid

structure ApprovedPublication where
  id : Uuid
  version : Int

structure PublicExecution where
  installationId : Uuid
  principalId : Uuid
  publications : List ApprovedPublication

/-- The agents of an authority and the key of its origin. -/
structure Lineage where
  agents : List Text
  origin : Option Text

inductive Principal where
  | system
  | anonymous
  /-- `Principal::Public` -/
  | published (execution : PublicExecution)
  | user (state : ContextState)
  | agent (state : ContextState) (lineage : Lineage)

inductive InvocationContext where
  | none
  | action (actionId : Text)
  | job (jobName : Text)
  deriving DecidableEq

def InvocationContext.key : InvocationContext → Text
  | .none => ":"
  | .action actionId => "action" ++ ':' :: actionId
  | .job jobName => "job" ++ ':' :: jobName

/-- `AgentAuthority::partition_key` -/
def Lineage.partitionKey (lineage : Lineage) : Text :=
  (Json.arr [.arr (lineage.agents.map .str), (lineage.origin.map Json.str).getD .null]).compact

/-- The revisions of the publications, by id and then version. -/
def PublicExecution.revisions (execution : PublicExecution) : List (Text ×ₗ Int) :=
  (execution.publications.map fun p => toLex (p.id.text, p.version)).insertionSort (· ≤ ·)

def revisionText (revision : Text ×ₗ Int) : Text :=
  (ofLex revision).1 ++ '@' :: showInt (ofLex revision).2

def PublicExecution.key (execution : PublicExecution) : Text :=
  "public:" ++ execution.installationId.text ++ ':' :: execution.principalId.text ++
    ':' :: join [','] (execution.revisions.map revisionText)

def debugUuid : Option Uuid → Text
  | none => "None"
  | some id => "Some(" ++ id.text ++ [')']

section Keys

variable (printable : Char → Bool)

def debugText : Option Text → Text
  | none => "None"
  | some text => "Some(" ++ debugStr printable text ++ [')']

/-- The key of a user, behind the user id. -/
def ContextState.detail (state : ContextState) : Text :=
  (if state.isDelegated then ['1'] else ['0']) ++ '|' :: join [','] (state.effectivePerms.insertionSort (· ≤ ·)) ++
    '|' :: debugText printable state.connectionId ++ '|' :: debugUuid state.auditActorId ++
    '|' :: debugUuid state.auditDelegatorId

def ContextState.uid (state : ContextState) : Text := (state.userId.map Uuid.text).getD []

def ContextState.key (state : ContextState) : Text := state.uid ++ '|' :: state.detail printable

def Principal.key : Principal → Text
  | .system => "·system"
  | .anonymous => "·anon"
  | .published execution => execution.principalId.text ++ '|' :: execution.key
  | .agent state lineage => state.key printable ++ "|agent=" ++ lineage.partitionKey
  | .user state => state.key printable

def workerKey (appId : Text) (principal : Principal) (invocation : InvocationContext) : Text × Text :=
  (appId, principal.key printable ++ "|scope=" ++ invocation.key)

/-- The key is of the application that the user id is the agent of, or the user id is
    its principal. -/
def workerKeyBelongsToPrincipal (agentUserId : Text → Uuid) (key : Text × Text) (userId : Uuid) : Bool :=
  (agentUserId key.1).text = userId.text || (key.2 = userId.text || (userId.text ++ ['|']).isPrefixOf key.2)

end Keys

/-! ## What a key has to tell -/

/-- The same identity, whatever the order of its permissions. -/
structure ContextState.Same (first second : ContextState) : Prop where
  userId : first.userId = second.userId
  isDelegated : first.isDelegated = second.isDelegated
  effectivePerms : first.effectivePerms.Perm second.effectivePerms
  connectionId : first.connectionId = second.connectionId
  auditActorId : first.auditActorId = second.auditActorId
  auditDelegatorId : first.auditDelegatorId = second.auditDelegatorId

/-- The same public execution, whatever the order of its publications. -/
structure PublicExecution.Same (first second : PublicExecution) : Prop where
  installationId : first.installationId = second.installationId
  principalId : first.principalId = second.principalId
  publications : first.publications.Perm second.publications

/-- The same kind of principal and the same identity. -/
inductive Principal.Same : Principal → Principal → Prop
  | system : Same .system .system
  | anonymous : Same .anonymous .anonymous
  | published {first second : PublicExecution} (same : first.Same second) : Same (.published first) (.published second)
  | user {first second : ContextState} (same : first.Same second) : Same (.user first) (.user second)
  | agent {first second : ContextState} {lineage : Lineage} (same : first.Same second) :
      Same (.agent first lineage) (.agent second lineage)

/-- The permission keys are such as the role API accepts. -/
def ContextState.Accepted (state : ContextState) : Prop :=
  ∀ key ∈ state.effectivePerms, validatePermKey key = .ok ()

def Principal.Accepted : Principal → Prop
  | .user state | .agent state _ => state.Accepted
  | _ => True

/-! ## The parts of a key -/

theorem insertionSort_eq_iff {α : Type} [LinearOrder α] [DecidableRel fun a b : α => a ≤ b] {first second : List α} :
    first.insertionSort (· ≤ ·) = second.insertionSort (· ≤ ·) ↔ first.Perm second := by
  constructor
  · intro same
    have middle := perm_insertionSort (· ≤ ·) first
    rw [same] at middle
    exact middle.symm.trans (perm_insertionSort (· ≤ ·) second)
  · intro same
    apply List.Perm.eq_of_pairwise' (pairwise_insertionSort (· ≤ ·) first)
      (pairwise_insertionSort (· ≤ ·) second)
    exact (perm_insertionSort _ _).trans (same.trans (perm_insertionSort _ _).symm)

theorem Uuid.text_inj {first second : Uuid} (same : first.text = second.text) : first = second := by
  cases first
  cases second
  cases same
  rfl

theorem Uuid.free (id : Uuid) {c : Char}
    (foreign : (c.isDigit || c ∈ ['a', 'b', 'c', 'd', 'e', 'f', '-']) = false) : c ∉ id.text := by
  intro mem
  have allowed := all_eq_true.mp id.hex c mem
  exact absurd allowed (by rw [foreign]; decide)

theorem accepted_key {key : Text} (accepted : validatePermKey key = .ok ()) :
    key ≠ [] ∧ '|' ∉ key ∧ ',' ∉ key := by
  unfold validatePermKey at accepted
  split at accepted
  · cases accepted
  · next valid =>
    simp only [Bool.or_eq_true, List.isEmpty_iff, Bool.not_eq_true', not_or, Bool.not_eq_false, all_eq_true] at valid
    obtain ⟨visible, allowed⟩ := valid
    refine ⟨visible, fun mem => ?_, fun mem => ?_⟩
    · exact absurd (allowed _ mem) (by decide)
    · exact absurd (allowed _ mem) (by decide)

theorem perms_unique {first second : List Text} (accepted : ∀ key ∈ first, validatePermKey key = .ok ())
    (accepted' : ∀ key ∈ second, validatePermKey key = .ok ())
    (same : join [','] (first.insertionSort (· ≤ ·)) = join [','] (second.insertionSort (· ≤ ·))) :
    first.Perm second := by
  have pieces {keys : List Text} (accepted : ∀ key ∈ keys, validatePermKey key = .ok ()) :
      split ',' (join [','] (keys.insertionSort (· ≤ ·))) = keys.insertionSort (· ≤ ·) := by
    apply split_intercalate
    · intro key mem
      exact (accepted_key (accepted key ((mem_insertionSort _).mp mem))).2.2
    · intro only
      have mem : [] ∈ keys.insertionSort (· ≤ ·) := by simp [only]
      exact (accepted_key (accepted [] ((mem_insertionSort _).mp mem))).1 rfl
  rw [← insertionSort_eq_iff, ← pieces accepted, ← pieces accepted', same]

theorem perms_free {keys : List Text} (accepted : ∀ key ∈ keys, validatePermKey key = .ok ()) :
    '|' ∉ join [','] (keys.insertionSort (· ≤ ·)) := by
  intro mem
  rcases mem_join mem with between | ⟨key, listed, inside⟩
  · exact absurd between (by decide)
  · exact (accepted_key (accepted key ((mem_insertionSort _).mp listed))).2.1 inside

theorem debugUuid_free (id : Option Uuid) : '|' ∉ debugUuid id := by
  cases id with
  | none => decide
  | some id =>
    have free := id.free (c := '|') (by decide)
    intro mem
    rcases mem_append.mp mem with mem | mem
    · rcases mem_append.mp mem with mem | mem
      · exact absurd mem (by decide)
      · exact free mem
    · exact absurd mem (by decide)

theorem debugUuid_inj {first second : Option Uuid} (same : debugUuid first = debugUuid second) : first = second := by
  cases first with
  | none =>
    cases second with
    | none => rfl
    | some id => exact nomatch (cons.inj same).1
  | some id =>
    cases second with
    | none => exact nomatch (cons.inj same).1
    | some id' =>
      rw [Uuid.text_inj (append_cancel_left (append_cancel_right same))]

variable (state : ContextState) {execution first second : PublicExecution} {rest rest' : Text}

section Reading

variable {printable : Char → Bool}

theorem debugText_some (text rest : Text) :
    debugText printable (some text) ++ rest = "Some(" ++ (debugStr printable text ++ ')' :: rest) := by
  unfold debugText
  generalize "Some(" = opening
  rw [append_assoc, append_assoc, singleton_append]

theorem debugText_unique {first second : Option Text}
    (same : debugText printable first ++ rest = debugText printable second ++ rest') :
    first = second ∧ rest = rest' := by
  cases first with
  | none =>
    cases second with
    | none => exact ⟨rfl, append_cancel_left same⟩
    | some text => exact nomatch (cons.inj same).1
  | some text =>
    cases second with
    | none => exact nomatch (cons.inj same).1
    | some text' =>
      rw [debugText_some, debugText_some] at same
      obtain ⟨rfl, tails⟩ := debugStr_unique printable (append_cancel_left same)
      exact ⟨rfl, (cons.inj tails).2⟩

theorem detail_append (rest : Text) :
    state.detail printable ++ rest = (if state.isDelegated then ['1'] else ['0']) ++
      '|' :: (join [','] (state.effectivePerms.insertionSort (· ≤ ·)) ++
      '|' :: (debugText printable state.connectionId ++ '|' :: (debugUuid state.auditActorId ++
      '|' :: (debugUuid state.auditDelegatorId ++ rest)))) := by
  simp only [ContextState.detail, append_assoc, cons_append]

theorem detail_unique {first second : ContextState} (accepted : first.Accepted) (accepted' : second.Accepted)
    (same : first.detail printable ++ '|' :: rest = second.detail printable ++ '|' :: rest') :
    (first.userId = second.userId → first.Same second) ∧ rest = rest' := by
  rw [detail_append, detail_append] at same
  have flag (state : ContextState) : '|' ∉ (if state.isDelegated then ['1'] else ['0']) := by
    cases state.isDelegated <;> decide
  obtain ⟨delegated, same⟩ := upTo_unique (flag first) (flag second) same
  obtain ⟨perms, same⟩ := upTo_unique (perms_free accepted) (perms_free accepted') same
  obtain ⟨connection, same⟩ := debugText_unique same
  obtain ⟨actor, same⟩ := upTo_unique (debugUuid_free _) (debugUuid_free _) (cons.inj same).2
  obtain ⟨delegator, same⟩ := upTo_unique (debugUuid_free _) (debugUuid_free _) same
  refine ⟨fun user => ⟨user, ?_, perms_unique accepted accepted' perms, connection, debugUuid_inj actor,
    debugUuid_inj delegator⟩, same⟩
  cases one : first.isDelegated <;> cases two : second.isDelegated <;> simp [one, two] at delegated <;> rfl

theorem uid_free : '|' ∉ state.uid := by
  unfold ContextState.uid
  cases state.userId with
  | none => exact not_mem_nil
  | some id => exact id.free (by decide)

theorem uid_inj {first second : ContextState} (same : first.uid = second.uid) : first.userId = second.userId := by
  unfold ContextState.uid at same
  cases one : first.userId with
  | none =>
    cases two : second.userId with
    | none => rfl
    | some id =>
      have lengths := congrArg length same
      simp [one, two, id.length] at lengths
  | some id =>
    cases two : second.userId with
    | none =>
      have lengths := congrArg length same
      simp [one, two, id.length] at lengths
    | some id' =>
      simp only [one, two, Option.map_some, Option.getD_some] at same
      rw [Uuid.text_inj same]

theorem numeric_strings (texts : List Text) : Json.NumericItems (texts.map .str) := by
  induction texts with
  | nil => exact trivial
  | cons text texts ih => exact ⟨trivial, ih⟩

theorem numeric_origin (origin : Option Text) : Json.Numeric ((origin.map Json.str).getD .null) := by
  cases origin <;> exact trivial

theorem partitionKey_unique {first second : Lineage}
    (same : first.partitionKey ++ rest = second.partitionKey ++ rest') : first = second ∧ rest = rest' := by
  simp only [Lineage.partitionKey, Json.compact, cons_append, append_assoc, nil_append,
    cons.injEq, true_and] at same
  have numeric (lineage : Lineage) :
      Json.NumericItems [.arr (lineage.agents.map .str), (lineage.origin.map Json.str).getD .null] :=
    ⟨numeric_strings lineage.agents, numeric_origin lineage.origin, trivial⟩
  obtain ⟨items, tails⟩ := Json.items_unique (fun item _ => Json.compact_unique item) (numeric first) (numeric second) same
  simp only [cons.injEq, Json.arr.injEq, and_true] at items
  obtain ⟨agents, origin⟩ := items
  refine ⟨?_, tails⟩
  obtain ⟨agents', origin'⟩ := first
  obtain ⟨agents'', origin''⟩ := second
  have lines : agents' = agents'' := map_injective_iff.mpr (fun _ _ equal => Json.str.inj equal) agents
  have origins : origin' = origin'' := by
    cases origin' <;> cases origin'' <;> simp_all
  rw [lines, origins]

theorem map_cancel {α β : Type} {f : α → β} {P : α → Prop}
    (inj : ∀ {a b}, P a → P b → f a = f b → a = b) {first second : List α} (same : first.map f = second.map f)
    (holds : ∀ a ∈ first, P a) (holds' : ∀ b ∈ second, P b) : first = second := by
  induction first generalizing second with
  | nil => exact (map_eq_nil_iff.mp same.symm).symm
  | cons a first ih =>
    cases second with
    | nil => cases same
    | cons b second =>
      obtain ⟨heads, tails⟩ := cons.inj same
      rw [inj (holds a mem_cons_self) (holds' b mem_cons_self) heads,
        ih tails (fun c mem => holds c (mem_cons_of_mem _ mem))
          (fun c mem => holds' c (mem_cons_of_mem _ mem))]

theorem revisionText_inj {first second : Text ×ₗ Int} (free : '@' ∉ (ofLex first).1) (free' : '@' ∉ (ofLex second).1)
    (same : revisionText first = revisionText second) : first = second := by
  obtain ⟨id, version⟩ := upTo_unique free free' same
  exact ofLex_inj.mp (Prod.ext id (showInt_inj version))

theorem mem_revisions {revision : Text ×ₗ Int} (mem : revision ∈ execution.revisions) :
    ∃ id : Uuid, (ofLex revision).1 = id.text := by
  rw [PublicExecution.revisions, mem_insertionSort, mem_map] at mem
  obtain ⟨publication, -, rfl⟩ := mem
  exact ⟨publication.id, rfl⟩

theorem revisionText_free {revision : Text ×ₗ Int} (mem : revision ∈ execution.revisions) {c : Char}
    (bar : c = '|' ∨ c = ',') : c ∉ revisionText revision := by
  obtain ⟨id, same⟩ := mem_revisions mem
  rw [revisionText, same]
  intro inside
  rcases mem_append.mp inside with inId | behind
  · refine id.free ?_ inId
    rcases bar with rfl | rfl <;> decide
  · rcases mem_cons.mp behind with rfl | digit
    · rcases bar with bar | bar <;> exact absurd bar (by decide)
    · rcases isDigit_of_mem_showInt digit with digit | rfl
      · rcases bar with rfl | rfl <;> exact absurd digit (by decide)
      · rcases bar with bar | bar <;> exact absurd bar (by decide)

theorem revisions_unique
    (same : join [','] (first.revisions.map revisionText) = join [','] (second.revisions.map revisionText)) :
    first.publications.Perm second.publications := by
  have pieces (execution : PublicExecution) :
      split ',' (join [','] (execution.revisions.map revisionText)) = execution.revisions.map revisionText := by
    apply split_intercalate
    · intro piece mem
      obtain ⟨revision, listed, rfl⟩ := mem_map.mp mem
      exact revisionText_free listed (.inr rfl)
    · intro only
      have mem : [] ∈ execution.revisions.map revisionText := by simp [only]
      obtain ⟨revision, -, empty⟩ := mem_map.mp mem
      simp [revisionText] at empty
  have texts : first.revisions.map revisionText = second.revisions.map revisionText := by
    rw [← pieces first, ← pieces second, same]
  have free {execution : PublicExecution} {revision : Text ×ₗ Int} (mem : revision ∈ execution.revisions) :
      '@' ∉ (ofLex revision).1 := by
    obtain ⟨id, same⟩ := mem_revisions mem
    rw [same]
    exact id.free (by decide)
  have revisions : first.revisions = second.revisions := by
    apply map_cancel (P := fun revision => '@' ∉ (ofLex revision).1) revisionText_inj texts
    · intro revision mem
      exact free mem
    · intro revision mem
      exact free mem
  have perm := insertionSort_eq_iff.mp revisions
  refine (map_perm_map_iff ?_).mp perm
  intro one two equal
  obtain ⟨ids, versions⟩ := Prod.mk.inj (toLex_inj.mp equal)
  cases one
  cases two
  cases Uuid.text_inj ids
  cases versions
  rfl

/-! ## The whole key -/

/-- The key of a principal up to its first bar. -/
def Principal.segment : Principal → Text
  | .system => "·system"
  | .anonymous => "·anon"
  | .published execution => execution.principalId.text
  | .user state | .agent state _ => state.uid

/-- What stands behind that bar when the key is followed by a bar and `rest`. -/
def Principal.behind (printable : Char → Bool) (rest : Text) : Principal → Text
  | .system | .anonymous => rest
  | .published execution => execution.key ++ '|' :: rest
  | .user state => state.detail printable ++ '|' :: rest
  | .agent state lineage =>
    state.detail printable ++ '|' :: ("agent=" ++ lineage.partitionKey ++ '|' :: rest)

theorem key_split (principal : Principal) (rest : Text) :
    principal.key printable ++ '|' :: rest = principal.segment ++ '|' :: principal.behind printable rest := by
  cases principal with
  | system | anonymous => rfl
  | published | user =>
    simp only [Principal.key, Principal.segment, Principal.behind, ContextState.key, append_assoc, cons_append]
  | agent state lineage =>
    have label : "|agent=" = '|' :: "agent=" := rfl
    simp only [Principal.key, Principal.segment, Principal.behind, ContextState.key, label, append_assoc,
      cons_append]

theorem segment_free (principal : Principal) : '|' ∉ principal.segment := by
  cases principal with
  | system | anonymous => decide
  | published execution => exact execution.principalId.free (by decide)
  | user state | agent state => exact uid_free state

theorem published_append (execution : PublicExecution) (rest : Text) :
    execution.key ++ rest = "public:" ++ (execution.installationId.text ++ ':' :: (execution.principalId.text ++
      ':' :: (join [','] (execution.revisions.map revisionText) ++ rest))) := by
  unfold PublicExecution.key
  generalize join [','] (execution.revisions.map revisionText) = revisions
  simp only [append_assoc, cons_append]

theorem published_unique (user : first.principalId = second.principalId)
    (same : first.key ++ '|' :: rest = second.key ++ '|' :: rest') : first.Same second ∧ rest = rest' := by
  rw [published_append, published_append] at same
  have same := append_cancel_left same
  have colon (id : Uuid) : ':' ∉ id.text := id.free (by decide)
  obtain ⟨installation, same⟩ := upTo_unique (colon first.installationId) (colon second.installationId) same
  obtain ⟨-, same⟩ := upTo_unique (colon first.principalId) (colon second.principalId) same
  have free (execution : PublicExecution) : '|' ∉ join [','] (execution.revisions.map revisionText) := by
    intro mem
    rcases mem_join mem with between | ⟨piece, listed, inside⟩
    · exact absurd between (by decide)
    · obtain ⟨revision, held, rfl⟩ := mem_map.mp listed
      exact revisionText_free held (.inl rfl) inside
  obtain ⟨revisions, same⟩ := upTo_unique (free first) (free second) same
  exact ⟨⟨Uuid.text_inj installation, user, revisions_unique revisions⟩, same⟩

theorem uid_length : state.uid.length = 36 ∨ state.uid.length = 0 := by
  unfold ContextState.uid
  cases state.userId with
  | none => exact .inr rfl
  | some id => exact .inl id.length

theorem uid_ne {state : ContextState} {name : Text} (visible : name.length ≠ 0) (short : name.length ≠ 36) :
    name ≠ state.uid := by
  intro same
  rw [same] at visible short
  rcases uid_length state with long | empty
  · exact short long
  · exact visible empty

theorem principalId_ne {name : Text} (short : name.length ≠ 36) : name ≠ execution.principalId.text := by
  intro same
  rw [same] at short
  exact short execution.principalId.length

theorem detail_head (state : ContextState) (rest : Text) :
    (state.detail printable ++ rest).head? = some '1' ∨ (state.detail printable ++ rest).head? = some '0' := by
  rw [detail_append]
  cases state.isDelegated with
  | true => exact .inl rfl
  | false => exact .inr rfl

theorem detail_ne_published (execution : PublicExecution) (rest rest' : Text) :
    state.detail printable ++ rest ≠ execution.key ++ rest' := by
  intro same
  have lead : (execution.key ++ rest').head? = some 'p' := rfl
  rcases @detail_head printable state rest with one | zero
  · rw [same, lead] at one
    cases one
  · rw [same, lead] at zero
    cases zero

theorem principal_unique {first second : Principal} (accepted : first.Accepted) (accepted' : second.Accepted)
    (same : first.key printable ++ '|' :: ("scope=" ++ rest) =
      second.key printable ++ '|' :: ("scope=" ++ rest')) : first.Same second ∧ rest = rest' := by
  rw [key_split, key_split] at same
  obtain ⟨segments, same⟩ := upTo_unique (segment_free first) (segment_free second) same
  have cancel : "scope=" ++ rest = "scope=" ++ rest' → rest = rest' := append_cancel_left
  cases first with
  | system =>
    cases second with
    | system => exact ⟨.system, cancel same⟩
    | anonymous => exact absurd segments (by decide)
    | published => exact absurd segments (principalId_ne (by decide))
    | user | agent => exact absurd segments (uid_ne (by decide) (by decide))
  | anonymous =>
    cases second with
    | system => exact absurd segments (by decide)
    | anonymous => exact ⟨.anonymous, cancel same⟩
    | published => exact absurd segments (principalId_ne (by decide))
    | user | agent => exact absurd segments (uid_ne (by decide) (by decide))
  | published execution =>
    cases second with
    | system | anonymous => exact absurd segments.symm (principalId_ne (by decide))
    | published execution' =>
      obtain ⟨alike, same⟩ := published_unique (Uuid.text_inj segments) same
      exact ⟨.published alike, cancel same⟩
    | user state | agent state => exact absurd same.symm (detail_ne_published state execution _ _)
  | user state =>
    cases second with
    | system | anonymous => exact absurd segments.symm (uid_ne (by decide) (by decide))
    | published execution => exact absurd same (detail_ne_published state execution _ _)
    | user state' =>
      obtain ⟨alike, same⟩ := detail_unique accepted accepted' same
      exact ⟨.user (alike (uid_inj segments)), cancel same⟩
    | agent state' lineage =>
      obtain ⟨-, same⟩ := detail_unique accepted accepted' same
      exact nomatch (cons.inj same).1
  | agent state lineage =>
    cases second with
    | system | anonymous => exact absurd segments.symm (uid_ne (by decide) (by decide))
    | published execution => exact absurd same (detail_ne_published state execution _ _)
    | user state' =>
      obtain ⟨-, same⟩ := detail_unique accepted accepted' same
      exact nomatch (cons.inj same).1
    | agent state' lineage' =>
      obtain ⟨alike, same⟩ := detail_unique accepted accepted' same
      rw [append_assoc, append_assoc] at same
      obtain ⟨lines, tails⟩ := partitionKey_unique (append_cancel_left same)
      subst lines
      exact ⟨.agent (alike (uid_inj segments)), cancel (cons.inj tails).2⟩

theorem scope_append (key rest : Text) :
    key ++ "|scope=" ++ rest = key ++ '|' :: ("scope=" ++ rest) := by
  rw [append_assoc]
  rfl

theorem invocation_key_inj {first second : InvocationContext} (same : first.key = second.key) : first = second := by
  cases first with
  | none =>
    cases second with
    | none => rfl
    | action | job => exact nomatch (cons.inj same).1
  | action name =>
    cases second with
    | none | job => exact nomatch (cons.inj same).1
    | action name' => rw [(cons.inj (append_cancel_left same)).2]
  | job name =>
    cases second with
    | none | action => exact nomatch (cons.inj same).1
    | job name' => rw [(cons.inj (append_cancel_left same)).2]

theorem ContextState.Same.key {first second : ContextState} (same : first.Same second) :
    first.key printable = second.key printable := by
  simp only [ContextState.key, ContextState.uid, ContextState.detail, same.userId, same.isDelegated, same.connectionId,
    same.auditActorId, same.auditDelegatorId, insertionSort_eq_iff.mpr same.effectivePerms]

theorem PublicExecution.Same.revisions (same : first.Same second) : first.revisions = second.revisions := by
  unfold PublicExecution.revisions
  apply insertionSort_eq_iff.mpr
  exact same.publications.map _

theorem PublicExecution.Same.key (same : first.Same second) : first.key = second.key := by
  unfold PublicExecution.key
  rw [same.revisions]
  generalize join [','] (second.revisions.map revisionText) = revisions
  rw [same.installationId, same.principalId]

theorem Principal.Same.key {first second : Principal} (same : first.Same second) :
    first.key printable = second.key printable := by
  cases same with
  | system | anonymous => rfl
  | published same =>
    rw [Principal.key, Principal.key, same.key, same.principalId]
  | user same => exact same.key
  | agent same => simp only [Principal.key, same.key]

/-- Two processes have the same key exactly when they are of the same application, for
    the same principal, up to the order of its permissions or publications, and for the
    same invocation scope. -/
theorem workerKey_eq_iff {app app' : Text} {first second : Principal} {scope scope' : InvocationContext}
    (accepted : first.Accepted) (accepted' : second.Accepted) :
    workerKey printable app first scope = workerKey printable app' second scope' ↔
      app = app' ∧ first.Same second ∧ scope = scope' := by
  constructor
  · intro same
    obtain ⟨apps, keys⟩ := Prod.mk.inj same
    rw [scope_append, scope_append] at keys
    obtain ⟨principals, scopes⟩ := principal_unique accepted accepted' keys
    exact ⟨apps, principals, invocation_key_inj scopes⟩
  · rintro ⟨rfl, same, rfl⟩
    rw [workerKey, workerKey, same.key]

end Reading

/-! ## A caller with two connections -/

def callerId : Uuid := ⟨"550e8400-e29b-41d4-a716-446655440000", by decide, by decide⟩

def callerState (permissions : List Text) (connection : Text) : ContextState :=
  ⟨some callerId, true, permissions, some connection, none, none⟩

theorem caller_keys :
    workerKey (fun _ => true) ['a'] (.user (callerState [['b'], ['c']] ['x'])) .none =
      workerKey (fun _ => true) ['a'] (.user (callerState [['c'], ['b']] ['x'])) .none ∧
    workerKey (fun _ => true) ['a'] (.user (callerState [['b'], ['c']] ['x'])) .none ≠
      workerKey (fun _ => true) ['a'] (.user (callerState [['b'], ['c']] "x|None".toList)) .none := by
  have accepted {connection : Text} {permissions : List Text} (listed : ∀ key ∈ permissions, key ∈ [['b'], ['c']]) :
      (Principal.user (callerState permissions connection)).Accepted := by
    intro key member
    rcases List.mem_pair.mp (listed key member) with rfl | rfl <;> rfl
  constructor
  · apply (workerKey_eq_iff (accepted (by simp)) (accepted (by simp))).mpr
    refine ⟨rfl, .user ⟨rfl, rfl, List.Perm.swap _ _ _, rfl, rfl, rfl⟩, rfl⟩
  · intro same
    obtain ⟨-, alike, -⟩ := (workerKey_eq_iff (accepted (by simp)) (accepted (by simp))).mp same
    cases alike with
    | user alike => exact absurd alike.connectionId (by decide)

end RootCx.Manager
