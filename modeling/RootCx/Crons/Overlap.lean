import RootCx.Crons.Schedules
import RootCx.Lib.Jsonb
import RootCx.Scheduler.Dispatch

/-! # The overlap check of a scheduled fire

A schedule with the policy `skip` is not fired while one of its messages is still in the
queue.  `rootcx_system.enqueue_cron` looks for the id of the schedule inside the payload
of the queued messages.  The Core writes that id in a field of its own next to the
payload, and every producer of messages lets its caller choose the payload.
-/

namespace RootCx.Crons

open Json
open Scheduler (JobKind)

/-! ## The messages -/

structure JobAuthority where
  isDelegated : Bool
  principalId : Option Uuid
  requiresDelegation : Bool
  effectivePerms : List Text
  connectionId : Option Text
  auditActorId : Option Uuid
  auditDelegatorId : Option Uuid

structure JobMessage where
  kind : Option JobKind
  authority : Option JobAuthority
  appId : Text
  payload : Json
  userId : Option Uuid
  cronId : Option Uuid

def kindName : JobKind → Text
  | .app => "app"
  | .cron => "cron"
  | .hook => "hook"
  | .workflowManual => "workflow_manual"

def nullable (value : Option Text) : Json := (value.map Json.str).getD .null

def JobAuthority.toValue (authority : JobAuthority) : Json :=
  .obj [("is_delegated", .bool authority.isDelegated),
    ("principal_id", nullable authority.principalId),
    ("requires_delegation", .bool authority.requiresDelegation),
    ("effective_perms", .arr (authority.effectivePerms.map .str)),
    ("connection_id", nullable authority.connectionId),
    ("audit_actor_id", nullable authority.auditActorId),
    ("audit_delegator_id", nullable authority.auditDelegatorId)]

/-- A field that `skip_serializing_if` leaves out. -/
def present (key : String) (value : Option Text) : List (Text × Json) :=
  (value.map fun text => (key.toList, Json.str text)).toList

/-- `serde_json::to_value` of a message. -/
def JobMessage.toValue (message : JobMessage) : Json :=
  .obj ([("kind".toList, nullable (message.kind.map kindName)),
    ("authority", (message.authority.map JobAuthority.toValue).getD .null),
    ("app_id", .str message.appId),
    ("payload", message.payload)] ++ present "user_id" message.userId ++ present "cron_id" message.cronId)

/-! ## Their producers -/

/-- The message that `rootcx_system.enqueue_cron` sends. -/
def cronMessage (cron : Uuid) (appId : Text) (payload : Json) (createdBy : Option Uuid) : Json :=
  .obj ([("kind".toList, .str "cron".toList),
    ("app_id", .str appId),
    ("payload", payload.concat (.obj [("cron_id", .str cron)])),
    ("cron_id", .str cron)] ++ present "user_id" createdBy)

/-- The calls that put a message into the queue, with what their callers choose. -/
inductive Producer where
  /-- `jobs::enqueue` -/
  | app (appId : Text) (payload : Json) (userId : Option Uuid)
  /-- `jobs::enqueue_worker`, for a worker with a user -/
  | worker (appId : Text) (payload : Json) (userId : Uuid) (authority : JobAuthority)
  /-- `jobs::enqueue_hook` -/
  | hook (appId : Text) (payload : Json) (userId : Option Uuid)
  /-- `jobs::enqueue_manual_workflow` -/
  | manual (appId : Text) (execution userId : Uuid)
  /-- `jobs::enqueue_cron`, for a schedule that is triggered by hand -/
  | trigger (cron : Uuid) (appId : Text) (payload : Json) (createdBy : Option Uuid)
  /-- `rootcx_system.enqueue_cron`, when it does send -/
  | fire (cron : Uuid) (appId : Text) (payload : Json) (createdBy : Option Uuid)

def Producer.message : Producer → Json
  | .app appId payload userId => JobMessage.toValue ⟨some .app, none, appId, payload, userId, none⟩
  | .worker appId payload userId authority =>
    JobMessage.toValue ⟨some .app, some authority, appId, payload, some userId, none⟩
  | .hook appId payload userId => JobMessage.toValue ⟨some .hook, none, appId, payload, userId, none⟩
  | .manual appId execution userId =>
    JobMessage.toValue ⟨some .workflowManual, none, appId,
      .obj [("execution_id", .str execution)], some userId, none⟩
  | .trigger cron appId payload createdBy =>
    JobMessage.toValue ⟨some .cron, none, appId, payload, createdBy, some cron⟩
  | .fire cron appId payload createdBy => cronMessage cron appId payload createdBy

/-- The schedule a message belongs to. -/
def Producer.cron : Producer → Option Uuid
  | .trigger cron _ _ _ | .fire cron _ _ _ => some cron
  | _ => none

/-! ## The check -/

section Check

variable (render : Json → Text)

/-- `message->'payload'->>'cron_id' = p_cron_id::text` -/
def matchesCron (cron : Uuid) (message : Json) : Bool :=
  ((message.get "payload").bind (fieldText render "cron_id")) == some cron

/-- `rootcx_system.enqueue_cron` on the messages of the queue; nothing when it skips. -/
def enqueueCron (queue : List Json) (cron : Uuid) (appId : Text) (payload : Json) (skipOver : Bool)
    (createdBy : Option Uuid) : Option Json :=
  if skipOver && queue.any (matchesCron render cron) then none
  else some (cronMessage cron appId payload createdBy)

/-- The message has the id of the schedule in its payload: put there by the scheduled fire,
    which can do so in an object only, or chosen so by the caller. -/
def Producer.carries (cron : Uuid) : Producer → Prop
  | .fire own _ payload _ => own = cron ∧ payload.isObject = true
  | .manual _ _ _ => False
  | .app _ payload _ | .worker _ payload _ _ | .hook _ payload _ | .trigger _ _ payload _ =>
    fieldText render "cron_id" payload = some cron

/-- The queue holds no message of the schedule and none that carries its id, or it holds
    both a message of the schedule and one that carries the id. -/
def Telling (queue : List Producer) (cron : Uuid) : Prop :=
  (∀ producer ∈ queue, producer.cron ≠ some cron ∧ ¬ producer.carries render cron) ∨
    (∃ producer ∈ queue, producer.cron = some cron) ∧ ∃ producer ∈ queue, producer.carries render cron

variable {render}

theorem get_payload (message : JobMessage) : message.toValue.get "payload".toList = some message.payload := by
  obtain ⟨kind, authority, appId, payload, userId, cronId⟩ := message
  rfl

theorem get_payload_cronMessage (cron : Uuid) (appId : Text) (payload : Json) (createdBy : Option Uuid) :
    (cronMessage cron appId payload createdBy).get "payload".toList =
      some (payload.concat (.obj [("cron_id".toList, .str cron)])) := rfl

theorem matchesCron_message (producer : Producer) (cron : Uuid) :
    matchesCron render cron producer.message = true ↔ producer.carries render cron := by
  cases producer with
  | app | worker | hook | trigger =>
    simp only [matchesCron, Producer.message, get_payload, Option.bind_some, beq_iff_eq, Producer.carries]
  | manual appId execution userId =>
    simp only [matchesCron, Producer.message, get_payload, Option.bind_some, beq_iff_eq, Producer.carries]
    have absent : Json.get "cron_id" (.obj [("execution_id", .str execution)]) = none := rfl
    rw [fieldText, absent]
    exact ⟨nofun, False.elim⟩
  | fire own appId payload createdBy =>
    simp only [matchesCron, Producer.message, get_payload_cronMessage, Option.bind_some, beq_iff_eq, Producer.carries]
    -- the added field is found exactly when the payload is an object
    rw [fieldText, get_concat_singleton]
    cases payload.isObject with
    | false => simp
    | true => simp

theorem enqueueCron_eq_none (queue : List Producer) (cron : Uuid) (appId : Text) (payload : Json)
    (createdBy : Option Uuid) :
    enqueueCron render (queue.map Producer.message) cron appId payload true createdBy = none ↔
      ∃ producer ∈ queue, producer.carries render cron := by
  simp only [enqueueCron, Bool.true_and, List.any_map, ite_eq_left_iff, reduceCtorEq, imp_false, not_not,
    List.any_eq_true, Function.comp_apply, matchesCron_message]

/-- For every content of the queue, a scheduled fire with the policy `skip` is skipped
    exactly when a message of that schedule is there, if and only if the queue is telling. -/
theorem skips_own_iff (queue : List Producer) (cron : Uuid) (appId : Text) (payload : Json)
    (createdBy : Option Uuid) :
    ((enqueueCron render (queue.map Producer.message) cron appId payload true createdBy = none) ↔
      ∃ producer ∈ queue, producer.cron = some cron) ↔ Telling render queue cron := by
  rw [enqueueCron_eq_none]
  constructor
  · intro exactly
    by_cases own : ∃ producer ∈ queue, producer.cron = some cron
    · exact .inr ⟨own, exactly.mpr own⟩
    · refine .inl fun producer member => ⟨fun same => own ⟨producer, member, same⟩, fun carries => ?_⟩
      exact own (exactly.mp ⟨producer, member, carries⟩)
  · intro telling
    rcases telling with absent | ⟨own, carried⟩
    · constructor
      · intro carried
        obtain ⟨producer, member, carries⟩ := carried
        exact absurd carries (absent producer member).2
      · intro own
        obtain ⟨producer, member, same⟩ := own
        exact absurd same (absent producer member).1
    · exact ⟨fun _ => own, fun _ => carried⟩

end Check

/-! ## Messages that are taken for another schedule's, and messages that are not seen -/

def nightly : Uuid := "550e8400-e29b-41d4-a716-446655440000"

/-- An application job that names the schedule, and the schedule triggered by hand. -/
def stray : Producer := .app "notes" (.obj [("cron_id", .str nightly)]) none

def byHand : Producer := .trigger nightly "shop" (.obj []) none

theorem stray_suppresses :
    ¬ ((enqueueCron compact ([stray].map Producer.message) nightly "shop".toList (.obj []) true none = none) ↔
        ∃ producer ∈ [stray], producer.cron = some nightly) ∧
      ¬ ((enqueueCron compact ([byHand].map Producer.message) nightly "shop".toList (.obj []) true none = none) ↔
        ∃ producer ∈ [byHand], producer.cron = some nightly) := by
  constructor
  · intro exactly
    have carried : ∃ producer ∈ [stray], producer.carries compact nightly := ⟨stray, List.mem_singleton_self _, rfl⟩
    rw [enqueueCron_eq_none] at exactly
    obtain ⟨producer, member, same⟩ := exactly.mp carried
    obtain rfl := List.mem_singleton.mp member
    cases same
  · intro exactly
    rw [enqueueCron_eq_none] at exactly
    obtain ⟨producer, member, carries⟩ := exactly.mpr ⟨byHand, List.mem_singleton_self _, rfl⟩
    obtain rfl := List.mem_singleton.mp member
    cases carries

end RootCx.Crons
