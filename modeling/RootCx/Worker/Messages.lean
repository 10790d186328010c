import Mathlib
import RootCx.Lib.Json

/-! # Messages of a worker

The messages a worker process sends to its supervisor (`ipc.rs`) and the checks
of `worker.rs` that decide which of them are heard: the lists of capabilities of
approved and of public executions, and the proof of a live invocation that a
worker of protocol 4 owes.  Of a message are kept the parts a check or a handler
reads; statements, parameters and logged text are left out.
-/

namespace RootCx.Worker

open RootCx.Text

inductive InboundMessage where
  | discover (protocol : Nat)
  | rpcResponse (id : Text) (result : Option Json) (error : Option Text)
  | jobResult (id : Text) (error : Option Text)
  | log
  | agentChunk (invokeId : Text)
  | agentDone (invokeId : Text)
  | agentError (invokeId : Text)
  | agentToolCall (invokeId callId : Text)
  | agentSessionCompacted (invokeId : Text)
  | event
  | collectionOp (id : Text) (invocationId : Option Text) (op : Text)
  | remoteCollectionOp (id : Text) (invocationId : Option Text) (op : Text)
  | sqlQuery (id : Text) (invocationId : Option Text)
  | sqlBegin (id : Text) (invocationId : Option Text)
  | sqlExec (id : Text) (invocationId : Option Text) (txId : Text)
  | sqlCommit (id : Text) (invocationId : Option Text) (txId : Text)
  | sqlRollback (id : Text) (invocationId : Option Text) (txId : Text)
  | selfAction (id : Text)
  | storageUpload (id : Text)
  | storageDownload (id : Text)
  | jobEnqueue (id : Text)

/-- The answers of the supervisor that carry an error. -/
inductive Reply where
  | collectionOpResult (id : Text) (error : Text)
  | sqlQueryResult (id : Text) (error : Text)
  | sqlBeginResult (id : Text) (txId : Option Text) (error : Option Text)
  | sqlExecResult (id : Text) (error : Text)
  | sqlEndResult (id : Text) (error : Text)
  | selfActionResult (id : Text) (error : Text)
  | storageDownloadResult (id : Text) (error : Text)
  | jobEnqueueResult (id : Text) (error : Text)
  | agentToolResult (invokeId callId : Text) (error : Text)
  deriving DecidableEq, Repr

/-- The reply that refuses a message, if its kind has one. -/
def refusal (error : Text) : InboundMessage → Option Reply
  | .collectionOp id _ _ | .remoteCollectionOp id _ _ => some (.collectionOpResult id error)
  | .sqlQuery id _ => some (.sqlQueryResult id error)
  | .sqlBegin id _ => some (.sqlBeginResult id none (some error))
  | .sqlExec id _ _ => some (.sqlExecResult id error)
  | .sqlCommit id _ _ | .sqlRollback id _ _ => some (.sqlEndResult id error)
  | .selfAction id => some (.selfActionResult id error)
  | .storageDownload id => some (.storageDownloadResult id error)
  | .jobEnqueue id => some (.jobEnqueueResult id error)
  | .agentToolCall invokeId callId => some (.agentToolResult invokeId callId error)
  | _ => none

/-! ## Protocols -/

def INVOCATION_PROTOCOL_VERSION : Nat := 4

inductive InvocationContext where
  | none
  | action (id : Text)
  | job (id : Text)
  deriving DecidableEq, Repr

def InvocationContext.isScoped : InvocationContext → Bool
  | .none => false
  | _ => true

/-- The scope a data message runs under; a worker that announces protocol 4 owes
    a live invocation for it. -/
def capabilityContext (invocation : InvocationContext) (workerProtocol : Nat) (active : Finset Text)
    (invocationId : Option Text) : Except Text InvocationContext :=
  if !invocation.isScoped then .ok .none
  else if workerProtocol < INVOCATION_PROTOCOL_VERSION then .ok invocation
  else
    match invocationId with
    | none => .error "missing invocation id"
    | some id => if id ∈ active then .ok invocation else .error "unknown or expired invocation id"

def echoesInvocation (invocation : InvocationContext) (workerProtocol : Nat) : Bool :=
  invocation.isScoped && decide (INVOCATION_PROTOCOL_VERSION ≤ workerProtocol)

/-- Whether a message on an open transaction may proceed. -/
def txMessageAdmitted (invocation : InvocationContext) (workerProtocol : Nat) (active : Finset Text)
    (txInvocations : Text → Option Text) (txId : Text) (invocationId : Option Text) : Bool :=
  !echoesInvocation invocation workerProtocol ||
    (decide (invocationId = txInvocations txId) &&
      (capabilityContext invocation workerProtocol active invocationId).isOk)

variable {workerProtocol : Nat} {active : Finset Text} {invocationId : Option Text}

theorem live_of_capabilityContext {invocation : InvocationContext}
    (echoes : echoesInvocation invocation workerProtocol = true)
    (allowed : (capabilityContext invocation workerProtocol active invocationId).isOk = true) :
    ∃ id, invocationId = some id ∧ id ∈ active := by
  simp only [echoesInvocation, Bool.and_eq_true, decide_eq_true_eq] at echoes
  obtain ⟨isScoped, protocol⟩ := echoes
  unfold capabilityContext at allowed
  rw [isScoped, if_neg (by simp), if_neg (Nat.not_lt.mpr protocol)] at allowed
  cases invocationId with
  | none => cases allowed
  | some id =>
    refine ⟨id, rfl, ?_⟩
    by_contra dead
    simp only [if_neg dead] at allowed
    cases allowed

/-- A worker that echoes reaches a transaction only under the live invocation that
    it was recorded with. -/
theorem admitted_of_echoes {invocation : InvocationContext} {txInvocations : Text → Option Text} {txId : Text}
    (echoes : echoesInvocation invocation workerProtocol = true)
    (admitted : txMessageAdmitted invocation workerProtocol active txInvocations txId invocationId = true) :
    ∃ id, invocationId = some id ∧ txInvocations txId = some id ∧ id ∈ active := by
  simp only [txMessageAdmitted, echoes, Bool.not_true, Bool.false_or, Bool.and_eq_true, decide_eq_true_eq] at admitted
  obtain ⟨id, rfl, live⟩ := live_of_capabilityContext echoes admitted.2
  exact ⟨id, rfl, admitted.1.symm, live⟩

/-! ## Lists of capabilities -/

def APPROVED_CAPABILITY_DENIED : Text := "capability denied in approved action execution"

def PUBLIC_CAPABILITY_DENIED : Text := "capability denied in public execution"

/-- The invocation named by a message that reaches data, for the messages an
    approved execution may send. -/
def InboundMessage.dataInvocation : InboundMessage → Option (Option Text)
  | .sqlQuery _ invocationId | .collectionOp _ invocationId _ | .sqlBegin _ invocationId
  | .sqlExec _ invocationId _ | .sqlCommit _ invocationId _ | .sqlRollback _ invocationId _ => some invocationId
  | _ => none

/-- `none` lets the message through, a reply refuses it and an error ends the worker. -/
def approvedCapabilityDenial (msg : InboundMessage) (workerProtocol : Nat) (active : Finset Text) :
    Except Text (Option Reply) :=
  match msg with
  | .discover protocol =>
    if INVOCATION_PROTOCOL_VERSION ≤ protocol then .ok none
    else .error "approved actions require worker protocol v4 or newer"
  | .log => .ok none
  | .rpcResponse _ _ _ =>
    if INVOCATION_PROTOCOL_VERSION ≤ workerProtocol ∧ active ≠ ∅ then .ok none
    else .error "approved action response requires a live v4 invocation"
  | .storageUpload _ | .event | .jobResult _ _ | .agentChunk _ | .agentDone _ | .agentError _
  | .agentSessionCompacted _ => .error APPROVED_CAPABILITY_DENIED
  | msg =>
    match msg.dataInvocation with
    | some invocationId =>
      if INVOCATION_PROTOCOL_VERSION ≤ workerProtocol ∧ invocationId.any (· ∈ active) then .ok none
      else .ok (refusal "approved data access requires a live v4 invocation" msg)
    | none => .ok (refusal APPROVED_CAPABILITY_DENIED msg)

def isRead (op : Text) : Bool :=
  op ∈ ["find".toList, "findAll".toList, "findOne".toList, "findPage".toList, "list".toList]

def publicCapabilityDenial (msg : InboundMessage) : Except Text (Option Reply) :=
  match msg with
  | .discover _ | .rpcResponse _ _ _ | .log => .ok none
  | .collectionOp _ _ op | .remoteCollectionOp _ _ op =>
    if isRead op then .ok none else .ok (refusal PUBLIC_CAPABILITY_DENIED msg)
  | .storageUpload _ | .event | .jobResult _ _ | .agentChunk _ | .agentDone _ | .agentError _
  | .agentSessionCompacted _ => .error PUBLIC_CAPABILITY_DENIED
  | msg => .ok (refusal PUBLIC_CAPABILITY_DENIED msg)

/-- An approved execution reaches data only under a live invocation. -/
theorem live_of_approved {msg : InboundMessage} (data : msg.dataInvocation = some invocationId)
    (heard : approvedCapabilityDenial msg workerProtocol active = .ok none) :
    INVOCATION_PROTOCOL_VERSION ≤ workerProtocol ∧ ∃ id, invocationId = some id ∧ id ∈ active := by
  have live (refused : refusal "approved data access requires a live v4 invocation" msg ≠ none)
      (heard : (if INVOCATION_PROTOCOL_VERSION ≤ workerProtocol ∧ invocationId.any (· ∈ active) then
        (.ok none : Except Text (Option Reply))
        else .ok (refusal "approved data access requires a live v4 invocation" msg)) = .ok none) :
      INVOCATION_PROTOCOL_VERSION ≤ workerProtocol ∧ ∃ id, invocationId = some id ∧ id ∈ active := by
    split at heard
    case isTrue allowed =>
      refine ⟨allowed.1, ?_⟩
      cases invocationId with
      | none => exact nomatch allowed.2
      | some id => exact ⟨id, rfl, by simpa using allowed.2⟩
    case isFalse => exact absurd (Except.ok.inj heard) refused
  cases msg with
  | sqlQuery _ named | collectionOp _ named _ | sqlBegin _ named | sqlExec _ named _ | sqlCommit _ named _
  | sqlRollback _ named _ =>
    obtain rfl : named = invocationId := Option.some.inj data
    exact live (fun missing => nomatch missing) heard
  | _ => cases data

end RootCx.Worker
