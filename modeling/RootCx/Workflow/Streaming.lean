import RootCx.Workflow.Runner

/-! # Watching an execution

The runner publishes the result of each node and a terminal event on a channel of the
execution; `stream_execution` subscribes to it, reads the status and the recorded nodes
and forwards what the channel brings.  Anyone may make the channel and anyone may drop
it from the map.  One execution is modelled with its runner, the calls of the scheduler
that fail it and its subscribers; a step is what one of them does between two awaits.
A subscriber that lags behind the capacity of its channel is not modelled.
-/

namespace RootCx.Workflow.Streaming

open Runs List

/-! ## The source functions -/

inductive WorkflowEvent where
  | node (nodeId : Text) (status : WorkflowNodeRunStatus) (output : Option Json) (error : Option Text)
  | done (status : WorkflowExecutionStatus) (error : Option Text)

/-- The event of a recorded node, as the runner publishes it and as it is replayed. -/
def WorkflowEvent.ofRow (row : Text × NodeRun) : WorkflowEvent := .node row.1 row.2.status row.2.output row.2.error

def WorkflowEvent.isDone : WorkflowEvent → Bool
  | .node _ _ _ _ => false
  | .done _ _ => true

/-- Where `stream_execution` stands. -/
inductive Phase where
  /-- It has subscribed and is about to read the status. -/
  | attached
  /-- It has read the status and is about to read the recorded nodes. -/
  | informed (status : WorkflowExecutionStatus)
  /-- It forwards what the channel brings, behind what the client has been sent. -/
  | live (received : List WorkflowEvent)
  | ended (received : List WorkflowEvent)
  /-- The client has gone away. -/
  | gone

/-- A subscriber: its channel, and what was sent there and not yet taken. -/
structure Subscriber where
  channel : Nat
  queue : List WorkflowEvent
  phase : Phase

/-- Where the runner stands. -/
inductive Runner where
  | absent
  /-- It has found the execution live. -/
  | loading
  /-- It is between two attempts: at the same node when one is named. -/
  | between (retried : Option Text)
  /-- A node is recorded and about to be published. -/
  | recorded (nodeId : Text) (run : NodeRun)
  /-- The final status is written and about to be published. -/
  | finished (status : WorkflowExecutionStatus) (error : Option Text)
  /-- The terminal event is published and the channel about to be closed. -/
  | announced

/-- Where a `fail_execution` stands. -/
inductive Failing where
  | writing
  | closing
  | over

/-- One execution.  `current` is the channel that the map has for it, `channels` the number
    of channels made so far. -/
structure State where
  status : WorkflowExecutionStatus
  rows : List (Text × NodeRun)
  current : Option Nat
  channels : Nat
  subscribers : List Subscriber
  runner : Runner
  failings : List Failing

/-- `exec_sender`: the channel of the map, or a new one. -/
def State.execSender (s : State) : State :=
  match s.current with
  | some _ => s
  | none => { s with current := some s.channels, channels := s.channels + 1 }

/-- A channel hands each event to all that have subscribed to it. -/
def Subscriber.deliver (channel : Option Nat) (event : WorkflowEvent) (subscriber : Subscriber) : Subscriber :=
  if channel = some subscriber.channel then { subscriber with queue := subscriber.queue ++ [event] } else subscriber

def State.publish (s : State) (event : WorkflowEvent) : State :=
  let s := s.execSender
  { s with subscribers := s.subscribers.map (.deliver s.current event) }

def State.subscribe (s : State) : State :=
  let s := s.execSender
  { s with subscribers := s.subscribers ++ [⟨s.current.getD 0, [], .attached⟩] }

def State.close (s : State) : State := { s with current := none }

/-- `persist_node_run`, whose statement is taken to succeed: the runner ignores a failure, and
    the row is then missing. -/
def State.persist (s : State) (nodeId : Text) (run : NodeRun) : State :=
  { s with rows :=
      if s.rows.any (·.1 = nodeId) then s.rows.map fun row => if row.1 = nodeId then (nodeId, run) else row
      else s.rows ++ [(nodeId, run)] }

def State.enter (s : State) (index : Nat) (subscriber : Subscriber) (phase : Phase) : State :=
  { s with subscribers := s.subscribers.set index { subscriber with phase } }

inductive Action where
  /-- `run` finds the execution live. -/
  | run
  | mark
  /-- A failed attempt is recorded that is followed by another one. -/
  | retry (nodeId : Text) (run : NodeRun)
  /-- The last attempt of a node is recorded. -/
  | record (nodeId : Text) (run : NodeRun)
  | publishNode
  /-- The final status is written. -/
  | finish (succeeded : Bool) (error : Option Text)
  /-- An access to the database fails, and the run returns. -/
  | giveUp
  | publishDone
  | closeRun
  /-- The scheduler calls `fail_execution`. -/
  | fail
  | failWrite (index : Nat)
  | failClose (index : Nat)
  | attach
  | readStatus (index : Nat)
  | readRows (index : Nat)
  | receive (index : Nat)
  | disconnect (index : Nat)

/-- `stream_execution` has read the recorded nodes. -/
def State.replay (s : State) (index : Nat) (subscriber : Subscriber) (status : WorkflowExecutionStatus) : State :=
  let replay := s.rows.map .ofRow
  if status.isLive then s.enter index subscriber (.live replay)
  else (s.enter index subscriber (.ended (replay ++ [WorkflowEvent.done status none]))).close

/-- The next event of the stream; it ends when the channel is dropped and nothing is left. -/
def State.next (s : State) (index : Nat) (subscriber : Subscriber) (received : List WorkflowEvent) : Option State :=
  match subscriber.queue with
  | event :: queue => s.enter index { subscriber with queue } (.live (received ++ [event]))
  | [] => if s.current = some subscriber.channel then none else s.enter index subscriber (.ended received)

def step (s : State) : Action → Option State
  | .run =>
    match s.runner with
    | .absent => if s.status.isLive then some { s with runner := .loading } else none
    | _ => none
  | .mark =>
    match s.runner with
    | .loading => some { s with status := .running, runner := .between none }
    | _ => none
  | .retry nodeId run =>
    match s.runner with
    | .between retried =>
      if retried.all (· = nodeId) then some { s.persist nodeId run with runner := .between (some nodeId) } else none
    | _ => none
  | .record nodeId run =>
    match s.runner with
    | .between retried =>
      if retried.all (· = nodeId) then some { s.persist nodeId run with runner := .recorded nodeId run } else none
    | _ => none
  | .publishNode =>
    match s.runner with
    | .recorded nodeId run => some { s.publish (.ofRow (nodeId, run)) with runner := .between none }
    | _ => none
  | .finish succeeded error =>
    match s.runner with
    | .between none =>
      let status := if succeeded then .succeeded else .failed
      some { s with status, runner := .finished status error }
    | _ => none
  | .giveUp =>
    match s.runner with
    | .loading | .between none => some { s with runner := .absent }
    | _ => none
  | .publishDone =>
    match s.runner with
    | .finished status error => some { s.publish (.done status error) with runner := .announced }
    | _ => none
  | .closeRun =>
    match s.runner with
    | .announced => some { s.close with runner := .absent }
    | _ => none
  | .fail => some { s with failings := s.failings ++ [.writing] }
  | .failWrite index =>
    match s.failings[index]? with
    | some .writing =>
      some { s with
        status := if s.status.isLive then .failed else s.status
        failings := s.failings.set index .closing }
    | _ => none
  | .failClose index =>
    match s.failings[index]? with
    | some .closing => some { s.close with failings := s.failings.set index .over }
    | _ => none
  | .attach => some s.subscribe
  | .readStatus index => do
    let subscriber ← s.subscribers[index]?
    match subscriber.phase with
    | .attached => s.enter index subscriber (.informed s.status)
    | _ => none
  | .readRows index => do
    let subscriber ← s.subscribers[index]?
    match subscriber.phase with
    | .informed status => s.replay index subscriber status
    | _ => none
  | .receive index => do
    let subscriber ← s.subscribers[index]?
    match subscriber.phase with
    | .live received => s.next index subscriber received
    | _ => none
  | .disconnect index => do
    let subscriber ← s.subscribers[index]?
    some (s.enter index subscriber .gone)

/-- The execution as it is created. -/
def start : State := ⟨.queued, [], none, 0, [], .absent, []⟩

/-! ## What a subscriber is promised -/

def NoDone (events : List WorkflowEvent) : Prop := ∀ event ∈ events, event.isDone = false

/-- One terminal event, as the last one. -/
def Closed (events : List WorkflowEvent) : Prop :=
  ∃ front status error, events = front ++ [WorkflowEvent.done status error] ∧ NoDone front

/-- Each recorded node, then one terminal event. -/
def Complete (rows : List (Text × NodeRun)) (events : List WorkflowEvent) : Prop :=
  (∀ row ∈ rows, .ofRow row ∈ events) ∧ Closed events

/-- The execution has ended, and whoever ended it is through. -/
structure Settled (s : State) : Prop where
  ended : s.status.isLive = false
  ran : s.runner = .absent
  failed : Failing.closing ∉ s.failings

/-- A stream that has ended was complete, and when the execution is settled, what is still
    in the channel completes each stream and then ends it. -/
def Served (s : State) : Prop :=
  ∀ subscriber ∈ s.subscribers,
    match subscriber.phase with
    | .ended received => Complete s.rows received
    | .live received => Settled s → Complete s.rows (received ++ subscriber.queue) ∧ s.current ≠ some subscriber.channel
    | _ => True

/-- The subscriber forwards the channel, and the terminal event is not on its way. -/
def Subscriber.Waits (subscriber : Subscriber) : Prop :=
  match subscriber.phase with
  | .informed status => status.isLive = true ∧ NoDone subscriber.queue
  | .live received => NoDone (received ++ subscriber.queue)
  | _ => False

/-- No subscriber on the channel of the map waits for the end. -/
def Unwatched (s : State) : Prop :=
  ∀ subscriber ∈ s.subscribers, s.current = some subscriber.channel → ¬subscriber.Waits

/-- The subscriber has read a final status, and drops the channel in its next step. -/
def Phase.terminal : Phase → Bool
  | .informed status => !status.isLive
  | _ => false

/-- The scheduler fails no execution that is run, and neither the scheduler nor a
    subscriber drops the channel of a subscriber that still waits for the end. -/
def Calm (s : State) : Action → Prop
  | .failWrite _ => s.status.isLive = true → s.runner = .absent
  | .failClose _ => Unwatched s
  | .readRows index => ∀ reader ∈ s.subscribers[index]?, reader.phase.terminal = true → Unwatched s
  | _ => True

instance decidableNoDone (events : List WorkflowEvent) : Decidable (NoDone events) :=
  inferInstanceAs (Decidable (∀ event ∈ events, event.isDone = false))

instance decidableWaits : ∀ subscriber : Subscriber, Decidable subscriber.Waits
  | ⟨_, queue, .informed status⟩ => inferInstanceAs (Decidable (status.isLive = true ∧ NoDone queue))
  | ⟨_, queue, .live received⟩ => inferInstanceAs (Decidable (NoDone (received ++ queue)))
  | ⟨_, _, .attached⟩ | ⟨_, _, .ended _⟩ | ⟨_, _, .gone⟩ => isFalse id

instance decidableUnwatched (s : State) : Decidable (Unwatched s) :=
  inferInstanceAs (Decidable (∀ subscriber ∈ s.subscribers, s.current = some subscriber.channel → ¬subscriber.Waits))

instance decidableAbsent : ∀ runner : Runner, Decidable (runner = .absent)
  | .absent => isTrue rfl
  | .loading | .between _ | .recorded _ _ | .finished _ _ | .announced => isFalse nofun

instance decidableCalm (s : State) : ∀ action, Decidable (Calm s action)
  | .failWrite _ => inferInstanceAs (Decidable (s.status.isLive = true → s.runner = .absent))
  | .failClose _ => inferInstanceAs (Decidable (Unwatched s))
  | .readRows index =>
    inferInstanceAs (Decidable (∀ reader ∈ s.subscribers[index]?, reader.phase.terminal = true → Unwatched s))
  | .run | .mark | .retry _ _ | .record _ _ | .publishNode | .finish _ _ | .giveUp | .publishDone | .closeRun => isTrue trivial
  | .fail | .attach | .readStatus _ | .receive _ | .disconnect _ => isTrue trivial

/-! ## The invariant -/

/-- The runner is about to publish the row, or to replace it. -/
def Runner.Excuses (row : Text × NodeRun) : Runner → Prop
  | .recorded nodeId run => row = (nodeId, run)
  | .between (some nodeId) => row.1 = nodeId
  | _ => False

/-- The runner is going to publish the terminal event, or the scheduler to drop the channel. -/
def Coming (s : State) : Prop :=
  s.status.isLive = true ∨ (∃ status error, s.runner = .finished status error) ∨
    s.runner = .absent ∧ Failing.closing ∈ s.failings

/-- The events of a stream that forwards its channel: the terminal one is still to come on
    the channel, or it is there and the channel is dropped or about to be. -/
def Awaits (s : State) (channel : Nat) (events : List WorkflowEvent) : Prop :=
  NoDone events ∧ s.current = some channel ∧ Coming s ∨
    Closed events ∧ s.status.isLive = false ∧
      (s.runner = .announced ∨ s.runner = .absent ∧ s.current ≠ some channel)

def Subscriber.Fine (s : State) (subscriber : Subscriber) : Prop :=
  match subscriber.phase with
  | .attached => s.status.isLive = true → s.current = some subscriber.channel ∧ NoDone subscriber.queue
  | .informed status =>
    (status.isLive = true → Awaits s subscriber.channel subscriber.queue) ∧
      (status.isLive = false → s.status.isLive = false)
  | .live received =>
    Awaits s subscriber.channel (received ++ subscriber.queue) ∧
      ∀ row ∈ s.rows, s.runner.Excuses row ∨ .ofRow row ∈ received ++ subscriber.queue
  | .ended received => s.status.isLive = false ∧ Complete s.rows received
  | .gone => True

structure Inv (s : State) : Prop where
  /-- While it runs nodes, the execution is live. -/
  busy : s.status.isLive = false → s.runner = .absent ∨ s.runner = .announced ∨ ∃ status error, s.runner = .finished status error
  finishing : s.status.isLive = true → s.runner ≠ .announced ∧ ∀ status error, s.runner ≠ .finished status error
  failed : Failing.closing ∈ s.failings → s.status.isLive = false
  known : ∀ channel ∈ s.current, channel < s.channels
  subscribed : ∀ subscriber ∈ s.subscribers, subscriber.channel < s.channels
  fine : ∀ subscriber ∈ s.subscribers, subscriber.Fine s

section Invariant

variable {s next : State} {subscriber : Subscriber} {events : List WorkflowEvent}

theorem NoDone.append_node (quiet : NoDone events) (row : Text × NodeRun) : NoDone (events ++ [.ofRow row]) := by
  intro event mem
  rcases mem_append.mp mem with before | last
  · exact quiet event before
  · rw [mem_singleton.mp last]
    rfl

theorem NoDone.closed (quiet : NoDone events) (status : WorkflowExecutionStatus) (error : Option Text) :
    Closed (events ++ [WorkflowEvent.done status error]) := ⟨events, status, error, rfl, quiet⟩

theorem NoDone.replay (quiet : NoDone events) (rows : List (Text × NodeRun)) : NoDone (rows.map .ofRow ++ events) := by
  intro event mem
  rcases mem_append.mp mem with replayed | before
  · obtain ⟨row, -, rfl⟩ := mem_map.mp replayed
    rfl
  · exact quiet event before

theorem Closed.replay (closed : Closed events) (rows : List (Text × NodeRun)) : Closed (rows.map .ofRow ++ events) := by
  obtain ⟨front, status, error, rfl, quiet⟩ := closed
  exact ⟨rows.map .ofRow ++ front, status, error, (append_assoc _ _ _).symm, quiet.replay rows⟩

theorem Closed.not_noDone (closed : Closed events) : ¬NoDone events := by
  obtain ⟨front, status, error, rfl, -⟩ := closed
  intro quiet
  exact nomatch quiet _ (mem_append_right _ (mem_singleton.mpr rfl))

theorem Awaits.of_live {channel : Nat} (awaits : Awaits s channel events) (live : s.status.isLive = true) :
    NoDone events ∧ s.current = some channel := by
  rcases awaits with ⟨quiet, here, -⟩ | ⟨-, ended, -⟩
  · exact ⟨quiet, here⟩
  · exact absurd live (by rw [ended]; decide)

/-- A step that leaves the channel and the rows and does not end the execution. -/
theorem Subscriber.Fine.go_on (fine : subscriber.Fine s) (live : s.status.isLive = true) (live' : next.status.isLive = true)
    (current : next.current = s.current)
    (rows : ∀ row ∈ next.rows, next.runner.Excuses row ∨ row ∈ s.rows ∧ ¬s.runner.Excuses row) :
    subscriber.Fine next := by
  obtain ⟨channel, queue, phase⟩ := subscriber
  cases phase with
  | attached =>
    intro _
    rw [current]
    exact fine live
  | informed status =>
    refine ⟨fun wasLive => ?_, fun wasEnded => absurd (fine.2 wasEnded) (by rw [live]; decide)⟩
    obtain ⟨quiet, here⟩ := (fine.1 wasLive).of_live live
    exact .inl ⟨quiet, current.trans here, .inl live'⟩
  | live received =>
    obtain ⟨awaits, told⟩ := fine
    obtain ⟨quiet, here⟩ := awaits.of_live live
    refine ⟨.inl ⟨quiet, current.trans here, .inl live'⟩, ?_⟩
    intro row mem
    rcases rows row mem with excused | ⟨old, due⟩
    · exact .inl excused
    · exact .inr ((told row old).resolve_left due)
  | ended received => exact absurd fine.1 (by rw [live]; decide)
  | gone => exact trivial

theorem Subscriber.Fine.end_live (fine : subscriber.Fine s) (live : s.status.isLive = true)
    (ended : next.status.isLive = false) (current : next.current = s.current) (rows : next.rows = s.rows)
    (due : ∀ row, ¬s.runner.Excuses row) (coming : Coming next) : subscriber.Fine next := by
  obtain ⟨channel, queue, phase⟩ := subscriber
  cases phase with
  | attached => exact fun still => absurd still (by rw [ended]; decide)
  | informed status =>
    refine ⟨fun wasLive => ?_, fun _ => ended⟩
    obtain ⟨quiet, here⟩ := (fine.1 wasLive).of_live live
    exact .inl ⟨quiet, current.trans here, coming⟩
  | live received =>
    obtain ⟨awaits, told⟩ := fine
    obtain ⟨quiet, here⟩ := awaits.of_live live
    refine ⟨.inl ⟨quiet, current.trans here, coming⟩, ?_⟩
    rw [rows]
    exact fun row mem => .inr ((told row mem).resolve_left (due row))
  | ended received => exact absurd fine.1 (by rw [live]; decide)
  | gone => exact trivial

/-- A step that touches neither the runner nor the rows, and makes a channel only where
    there is none. -/
theorem Subscriber.Fine.beside (fine : subscriber.Fine s) (status : next.status = s.status) (rows : next.rows = s.rows)
    (runner : next.runner = s.runner) (failings : Failing.closing ∈ s.failings → Failing.closing ∈ next.failings)
    (current : next.current = s.current ∨ s.current = none ∧ next.current ≠ some subscriber.channel) :
    subscriber.Fine next := by
  have kept {channel : Nat} (same : channel = subscriber.channel) (here : s.current = some channel) :
      next.current = some channel := by
    rcases current with unchanged | ⟨none', -⟩
    · exact unchanged.trans here
    · exact nomatch none'.symm.trans here
  have awaited {channel : Nat} {events : List WorkflowEvent} (same : channel = subscriber.channel)
      (awaits : Awaits s channel events) : Awaits next channel events := by
    rcases awaits with ⟨quiet, here, coming⟩ | ⟨closed, ended, told⟩
    · refine .inl ⟨quiet, kept same here, ?_⟩
      unfold Coming
      rw [status, runner]
      exact coming.imp_right (Or.imp_right (And.imp_right failings))
    · refine .inr ⟨closed, by rw [status]; exact ended, ?_⟩
      rw [runner]
      refine told.imp_right fun ⟨absent, gone⟩ => ⟨absent, ?_⟩
      rcases current with unchanged | ⟨-, fresh⟩
      · rw [unchanged]
        exact gone
      · rw [same]
        exact fresh
  obtain ⟨channel, queue, phase⟩ := subscriber
  cases phase with
  | attached =>
    intro live
    rw [status] at live
    exact ⟨kept rfl (fine live).1, (fine live).2⟩
  | informed found => exact ⟨fun wasLive => awaited rfl (fine.1 wasLive), fun wasEnded => status ▸ fine.2 wasEnded⟩
  | live received =>
    refine ⟨awaited rfl fine.1, ?_⟩
    rw [rows, runner]
    exact fine.2
  | ended received =>
    refine ⟨status ▸ fine.1, ?_⟩
    rw [rows]
    exact fine.2
  | gone => exact trivial

/-- The channel is dropped, when no one waits on it. -/
theorem Subscriber.Fine.drop (fine : subscriber.Fine s) (status : next.status = s.status) (rows : next.rows = s.rows)
    (runner : next.runner = s.runner ∨ s.runner = .announced ∧ next.runner = .absent) (current : next.current = none)
    (ended : s.status.isLive = false) (calm : s.current = some subscriber.channel → ¬subscriber.Waits) :
    subscriber.Fine next := by
  have closes {channel : Nat} {events : List WorkflowEvent} (same : channel = subscriber.channel)
      (awaits : Awaits s channel events) (waits : NoDone events → subscriber.Waits) : Awaits next channel events := by
    rcases awaits with ⟨quiet, here, -⟩ | ⟨closed, -, told⟩
    · exact absurd (waits quiet) (calm (same ▸ here))
    · refine .inr ⟨closed, by rw [status]; exact ended, ?_⟩
      rw [current]
      rcases runner with unchanged | ⟨-, absent⟩
      · rw [unchanged]
        exact told.imp_right fun ⟨absent, _⟩ => ⟨absent, nofun⟩
      · exact .inr ⟨absent, nofun⟩
  obtain ⟨channel, queue, phase⟩ := subscriber
  cases phase with
  | attached => exact fun live => absurd live (by rw [status, ended]; decide)
  | informed found =>
    exact ⟨fun wasLive => closes rfl (fine.1 wasLive) fun quiet => ⟨wasLive, quiet⟩, fun _ => status ▸ ended⟩
  | live received =>
    refine ⟨closes rfl fine.1 id, ?_⟩
    rw [rows]
    intro row mem
    refine (fine.2 row mem).imp_left fun excused => ?_
    rcases runner with unchanged | ⟨announced, -⟩
    · rw [unchanged]
      exact excused
    · rw [announced] at excused
      cases excused
  | ended received =>
    refine ⟨status ▸ fine.1, ?_⟩
    rw [rows]
    exact fine.2
  | gone => exact trivial

theorem deliver_channel (current : Option Nat) (event : WorkflowEvent) :
    (subscriber.deliver current event).channel = subscriber.channel := by
  unfold Subscriber.deliver
  split <;> rfl

theorem deliver_phase (current : Option Nat) (event : WorkflowEvent) :
    (subscriber.deliver current event).phase = subscriber.phase := by
  unfold Subscriber.deliver
  split <;> rfl

theorem deliver_here {current : Option Nat} (here : current = some subscriber.channel) (event : WorkflowEvent) :
    subscriber.deliver current event = { subscriber with queue := subscriber.queue ++ [event] } := if_pos here

theorem execSender_of_current {channel : Nat} (here : s.current = some channel) : s.execSender = s := by
  unfold State.execSender
  rw [here]

theorem current_execSender {channel : Nat} (here : s.current = some channel) : s.execSender.current = some channel := by
  rw [execSender_of_current here, here]

@[simp] theorem execSender_status : s.execSender.status = s.status := by unfold State.execSender; split <;> rfl

@[simp] theorem execSender_rows : s.execSender.rows = s.rows := by unfold State.execSender; split <;> rfl

@[simp] theorem execSender_runner : s.execSender.runner = s.runner := by unfold State.execSender; split <;> rfl

@[simp] theorem execSender_failings : s.execSender.failings = s.failings := by unfold State.execSender; split <;> rfl

@[simp] theorem execSender_subscribers : s.execSender.subscribers = s.subscribers := by
  unfold State.execSender; split <;> rfl

/-- Whoever is on the channel of the map gets the published node, and nobody else waits. -/
theorem Subscriber.Fine.publish_node {nodeId : Text} {run : NodeRun} (fine : subscriber.Fine s)
    (live : s.status.isLive = true) (recorded : s.runner = .recorded nodeId run) :
    (subscriber.deliver s.execSender.current (.ofRow (nodeId, run))).Fine
      { s.publish (.ofRow (nodeId, run)) with runner := .between none } := by
  have live' : ({ s.publish (.ofRow (nodeId, run)) with runner := .between none } : State).status.isLive = true := by
    simpa only [State.publish, execSender_status] using live
  obtain ⟨channel, queue, phase⟩ := subscriber
  cases phase with
  | attached =>
    obtain ⟨here, quiet⟩ := fine live
    have here' := current_execSender here
    rw [deliver_here here']
    exact fun _ => ⟨here', quiet.append_node _⟩
  | informed status =>
    cases found : status.isLive with
    | false => exact absurd (fine.2 found) (by rw [live]; decide)
    | true =>
      obtain ⟨quiet, here⟩ := (fine.1 found).of_live live
      have here' := current_execSender here
      rw [deliver_here here']
      refine ⟨fun _ => .inl ⟨quiet.append_node _, here', .inl live'⟩, fun ended => ?_⟩
      exact absurd ended (by rw [found]; decide)
  | live received =>
    obtain ⟨awaits, told⟩ := fine
    obtain ⟨quiet, here⟩ := awaits.of_live live
    have here' := current_execSender here
    rw [deliver_here here']
    have longer : received ++ (queue ++ [WorkflowEvent.ofRow (nodeId, run)]) = received ++ queue ++ [WorkflowEvent.ofRow (nodeId, run)] :=
      (append_assoc _ _ _).symm
    refine ⟨.inl ⟨longer ▸ quiet.append_node _, here', .inl live'⟩, ?_⟩
    intro row mem
    have mem : row ∈ s.rows := by simpa only [State.publish, execSender_rows] using mem
    refine .inr ?_
    change _ ∈ received ++ (queue ++ [_])
    rw [longer, mem_append, mem_singleton]
    refine (told row mem).symm.imp_right fun excused => ?_
    rw [recorded] at excused
    obtain rfl : row = (nodeId, run) := excused
    rfl
  | ended received => exact absurd fine.1 (by rw [live]; decide)
  | gone =>
    unfold Subscriber.Fine
    rw [deliver_phase]
    exact trivial

/-- Whoever still waits gets the terminal event. -/
theorem Subscriber.Fine.publish_done {status : WorkflowExecutionStatus} {error : Option Text} (fine : subscriber.Fine s)
    (ended : s.status.isLive = false) (finished : s.runner = .finished status error) :
    (subscriber.deliver s.execSender.current (.done status error)).Fine
      { s.publish (.done status error) with runner := .announced } := by
  have ended' : ({ s.publish (.done status error) with runner := .announced } : State).status.isLive = false := by
    simpa only [State.publish, execSender_status] using ended
  have opens {channel : Nat} {events : List WorkflowEvent} (awaits : Awaits s channel events) :
      NoDone events ∧ s.current = some channel := by
    rcases awaits with ⟨quiet, here, -⟩ | ⟨-, -, announced | ⟨absent, -⟩⟩
    · exact ⟨quiet, here⟩
    · exact nomatch finished.symm.trans announced
    · exact nomatch finished.symm.trans absent
  obtain ⟨channel, queue, phase⟩ := subscriber
  cases phase with
  | attached =>
    unfold Subscriber.Fine
    rw [deliver_phase]
    exact fun live => absurd live (by rw [ended']; decide)
  | informed found =>
    cases wasLive : found.isLive with
    | false =>
      unfold Subscriber.Fine
      rw [deliver_phase]
      exact ⟨fun live => absurd live (by rw [wasLive]; decide), fun _ => ended'⟩
    | true =>
      obtain ⟨quiet, here⟩ := opens (fine.1 wasLive)
      rw [deliver_here (current_execSender here)]
      exact ⟨fun _ => .inr ⟨quiet.closed status error, ended', .inl rfl⟩, fun _ => ended'⟩
  | live received =>
    obtain ⟨awaits, told⟩ := fine
    obtain ⟨quiet, here⟩ := opens awaits
    rw [deliver_here (current_execSender here)]
    have longer : received ++ (queue ++ [WorkflowEvent.done status error]) = received ++ queue ++ [WorkflowEvent.done status error] :=
      (append_assoc _ _ _).symm
    refine ⟨.inr ⟨longer ▸ quiet.closed status error, ended', .inl rfl⟩, ?_⟩
    intro row mem
    have mem : row ∈ s.rows := by simpa only [State.publish, execSender_rows] using mem
    refine .inr ?_
    change _ ∈ received ++ (queue ++ [_])
    rw [longer]
    refine mem_append_left _ ((told row mem).resolve_left ?_)
    rw [finished]
    exact id
  | ended received =>
    unfold Subscriber.Fine
    rw [deliver_phase]
    refine ⟨ended', ?_⟩
    simpa only [State.publish, execSender_rows] using fine.2
  | gone =>
    unfold Subscriber.Fine
    rw [deliver_phase]
    exact trivial

/-! ## Its steps -/

theorem Inv.live (inv : Inv s) (here : s.runner ≠ .absent) (silent : s.runner ≠ .announced)
    (open_ : ∀ status error, s.runner ≠ .finished status error) : s.status.isLive = true := by
  cases found : s.status.isLive with
  | true => rfl
  | false =>
    rcases inv.busy found with absent | announced | ⟨status, error, finished⟩
    · exact absurd absent here
    · exact absurd announced silent
    · exact absurd finished (open_ status error)

theorem Inv.go_on (inv : Inv s) (live : s.status.isLive = true) (live' : next.status.isLive = true)
    (current : next.current = s.current) (channels : next.channels = s.channels)
    (subscribers : next.subscribers = s.subscribers) (failings : next.failings = s.failings)
    (silent : next.runner ≠ .announced) (open_ : ∀ status error, next.runner ≠ .finished status error)
    (rows : ∀ row ∈ next.rows, next.runner.Excuses row ∨ row ∈ s.rows ∧ ¬s.runner.Excuses row) : Inv next where
  busy ended := absurd live' (by rw [ended]; decide)
  finishing _ := ⟨silent, open_⟩
  failed := by
    rw [failings]
    exact fun closing => absurd live (by rw [inv.failed closing]; decide)
  known := by
    rw [current, channels]
    exact inv.known
  subscribed := by
    rw [subscribers, channels]
    exact inv.subscribed
  fine := by
    rw [subscribers]
    exact fun subscriber mem => (inv.fine subscriber mem).go_on live live' current rows

theorem mem_persist {nodeId : Text} {run : NodeRun} {row : Text × NodeRun} (mem : row ∈ (s.persist nodeId run).rows) :
    row = (nodeId, run) ∨ row ∈ s.rows ∧ row.1 ≠ nodeId := by
  unfold State.persist at mem
  simp only at mem
  split at mem
  · obtain ⟨old, listed, rfl⟩ := mem_map.mp mem
    by_cases same : old.1 = nodeId
    · exact .inl (if_pos same)
    · rw [if_neg same]
      exact .inr ⟨listed, same⟩
  next fresh =>
    rcases mem_append.mp mem with old | new
    · refine .inr ⟨old, fun same => fresh ?_⟩
      exact any_eq_true.mpr ⟨row, old, decide_eq_true same⟩
    · exact .inl (mem_singleton.mp new)

theorem Inv.persist {retried : Option Text} {nodeId : Text} {run : NodeRun} {runner : Runner} (inv : Inv s)
    (between : s.runner = .between retried) (same : retried.all (· = nodeId) = true)
    (excuses : runner.Excuses (nodeId, run)) (silent : runner ≠ .announced)
    (open_ : ∀ status error, runner ≠ .finished status error) : Inv { s.persist nodeId run with runner } := by
  have live : s.status.isLive = true := by
    apply inv.live
    all_goals rw [between]; exact nofun
  refine inv.go_on live live rfl rfl rfl rfl silent open_ ?_
  intro row mem
  rcases mem_persist mem with rfl | ⟨old, other⟩
  · exact .inl excuses
  · refine .inr ⟨old, ?_⟩
    rw [between]
    cases retried with
    | none => exact id
    | some before =>
      obtain rfl : before = nodeId := of_decide_eq_true same
      exact other

theorem Inv.end_live {status : WorkflowExecutionStatus} {runner : Runner} {failings : List Failing} (inv : Inv s)
    (live : s.status.isLive = true) (ended : status.isLive = false) (due : ∀ row, ¬s.runner.Excuses row)
    (busy : runner = .absent ∨ runner = .announced ∨ ∃ status error, runner = .finished status error)
    (coming : Coming { s with status, runner, failings }) : Inv { s with status, runner, failings } where
  busy _ := busy
  finishing still := absurd still (by rw [ended]; decide)
  failed _ := ended
  known := inv.known
  subscribed := inv.subscribed
  fine subscriber mem := (inv.fine subscriber mem).end_live live ended rfl rfl due coming

theorem Inv.drop {runner : Runner} {failings : List Failing} (inv : Inv s) (ended : s.status.isLive = false)
    (runs : runner = s.runner ∨ s.runner = .announced ∧ runner = .absent)
    (calm : Unwatched s) : Inv { s.close with runner, failings } where
  busy _ := by
    rcases runs with rfl | ⟨-, rfl⟩
    · exact inv.busy ended
    · exact .inl rfl
  finishing live := absurd live (by change ¬s.status.isLive = true; rw [ended]; decide)
  failed _ := ended
  known := nofun
  subscribed := inv.subscribed
  fine subscriber mem := (inv.fine subscriber mem).drop rfl rfl runs rfl ended (calm subscriber mem)

theorem Inv.announced_quiet (inv : Inv s) (announced : s.runner = .announced) : Unwatched s := by
  have ended : s.status.isLive = false := by
    cases found : s.status.isLive with
    | false => rfl
    | true => exact absurd announced (inv.finishing found).1
  have told {channel : Nat} {events : List WorkflowEvent} (awaits : Awaits s channel events) : ¬NoDone events := by
    rcases awaits with ⟨-, -, live | ⟨status, error, finished⟩ | ⟨absent, -⟩⟩ | ⟨closed, -⟩
    · exact absurd live (by rw [ended]; decide)
    · exact nomatch announced.symm.trans finished
    · exact nomatch announced.symm.trans absent
    · exact closed.not_noDone
  intro subscriber mem _ waits
  have fine := inv.fine subscriber mem
  obtain ⟨channel, queue, phase⟩ := subscriber
  cases phase with
  | informed status => exact told (fine.1 waits.1) waits.2
  | live received => exact told fine.1 waits
  | attached | ended | gone => exact waits

theorem Inv.failing {failings : List Failing} (inv : Inv s)
    (before : Failing.closing ∈ failings → Failing.closing ∈ s.failings ∨ s.status.isLive = false)
    (after : Failing.closing ∈ s.failings → Failing.closing ∈ failings) : Inv { s with failings } where
  busy := inv.busy
  finishing := inv.finishing
  failed closing := (before closing).elim inv.failed id
  known := inv.known
  subscribed := inv.subscribed
  fine subscriber mem := (inv.fine subscriber mem).beside rfl rfl rfl after (.inl rfl)

theorem execSender_fresh (inv : Inv s) :
    (∀ channel ∈ s.execSender.current, channel < s.execSender.channels) ∧ s.channels ≤ s.execSender.channels := by
  unfold State.execSender
  split
  · exact ⟨inv.known, le_rfl⟩
  · refine ⟨?_, Nat.le_succ _⟩
    intro channel made
    cases made
    exact Nat.lt_succ_self _

theorem Inv.publish {event : WorkflowEvent} {runner : Runner} (inv : Inv s)
    (busy : s.status.isLive = false → runner = .absent ∨ runner = .announced ∨ ∃ status error, runner = .finished status error)
    (finishing : s.status.isLive = true → runner ≠ .announced ∧ ∀ status error, runner ≠ .finished status error)
    (fine : ∀ subscriber ∈ s.subscribers,
      (subscriber.deliver s.execSender.current event).Fine { s.publish event with runner }) :
    Inv { s.publish event with runner } where
  busy := by simpa only [State.publish, execSender_status] using busy
  finishing := by simpa only [State.publish, execSender_status] using finishing
  failed := by simpa only [State.publish, execSender_status, execSender_failings] using inv.failed
  known := (execSender_fresh inv).1
  subscribed := by
    intro subscriber mem
    obtain ⟨before, listed, rfl⟩ := mem_map.mp mem
    rw [execSender_subscribers] at listed
    rw [deliver_channel]
    exact (inv.subscribed before listed).trans_le (execSender_fresh inv).2
  fine := by
    intro subscriber mem
    obtain ⟨before, listed, rfl⟩ := mem_map.mp mem
    rw [execSender_subscribers] at listed
    exact fine before listed

theorem Inv.enter {index : Nat} {queue : List WorkflowEvent} {phase : Phase} (inv : Inv s)
    (found : s.subscribers[index]? = some subscriber)
    (fine : ({ subscriber with queue, phase } : Subscriber).Fine s) :
    Inv (s.enter index { subscriber with queue } phase) where
  busy := inv.busy
  finishing := inv.finishing
  failed := inv.failed
  known := inv.known
  subscribed := by
    intro other mem
    rcases mem_or_eq_of_mem_set mem with old | rfl
    · exact inv.subscribed other old
    · exact inv.subscribed subscriber (mem_of_getElem? found)
  fine := by
    intro other mem
    rcases mem_or_eq_of_mem_set mem with old | rfl
    · exact (inv.fine other old).beside rfl rfl rfl id (.inl rfl)
    · exact fine.beside rfl rfl rfl id (.inl rfl)

theorem Inv.subscribe (inv : Inv s) : Inv s.subscribe where
  busy := by simpa only [State.subscribe, execSender_status, execSender_runner] using inv.busy
  finishing := by simpa only [State.subscribe, execSender_status, execSender_runner] using inv.finishing
  failed := by simpa only [State.subscribe, execSender_status, execSender_failings] using inv.failed
  known := (execSender_fresh inv).1
  subscribed := by
    intro subscriber mem
    rcases mem_append.mp mem with old | new
    · rw [execSender_subscribers] at old
      exact (inv.subscribed subscriber old).trans_le (execSender_fresh inv).2
    · rw [mem_singleton.mp new]
      change s.execSender.current.getD 0 < s.execSender.channels
      unfold State.execSender
      cases here : s.current with
      | none => exact Nat.lt_succ_self _
      | some channel =>
        change s.current.getD 0 < s.channels
        rw [here]
        exact inv.known channel here
  fine := by
    intro subscriber mem
    rcases mem_append.mp mem with old | new
    · rw [execSender_subscribers] at old
      refine (inv.fine subscriber old).beside execSender_status execSender_rows execSender_runner ?_ ?_
      · exact fun closing => execSender_failings.symm ▸ closing
      · change s.execSender.current = s.current ∨ s.current = none ∧ s.execSender.current ≠ some subscriber.channel
        cases here : s.current with
        | some channel => exact .inl (current_execSender here)
        | none =>
          refine .inr ⟨rfl, ?_⟩
          rw [State.execSender, here]
          intro same
          exact (inv.subscribed subscriber old).ne' (Option.some.inj same)
    · rw [mem_singleton.mp new]
      refine fun _ => ⟨?_, nofun⟩
      change s.execSender.current = some (s.execSender.current.getD 0)
      unfold State.execSender
      cases here : s.current with
      | none => rfl
      | some channel =>
        change s.current = some (s.current.getD 0)
        rw [here]
        rfl

/-- A subscriber replays the recorded nodes and goes on with its channel, or ends. -/
theorem Inv.replay {index : Nat} {status : WorkflowExecutionStatus} (inv : Inv s)
    (found : s.subscribers[index]? = some subscriber) (informed : subscriber.phase = .informed status)
    (calm : status.isLive = false → Unwatched s) :
    Inv (s.replay index subscriber status) := by
  have fine := inv.fine subscriber (mem_of_getElem? found)
  unfold Subscriber.Fine at fine
  rw [informed] at fine
  unfold State.replay
  simp only
  cases live : status.isLive with
  | true =>
    refine inv.enter found ⟨?_, fun row mem => .inr (mem_append_left _ (mem_map_of_mem mem))⟩
    rcases fine.1 live with ⟨quiet, rest⟩ | ⟨closed, rest⟩
    · exact .inl ⟨quiet.replay s.rows, rest⟩
    · exact .inr ⟨closed.replay s.rows, rest⟩
  | false =>
    have ended := fine.2 live
    have replayed : Closed (s.rows.map .ofRow ++ [WorkflowEvent.done status none]) :=
      Closed.replay ⟨[], status, none, rfl, nofun⟩ s.rows
    have entered : Inv (s.enter index subscriber (.ended (s.rows.map .ofRow ++ [WorkflowEvent.done status none]))) :=
      inv.enter found ⟨ended, fun row mem => mem_append_left _ (mem_map_of_mem mem), replayed⟩
    refine @Inv.drop _ s.runner s.failings entered ended (.inl rfl) ?_
    intro other mem
    rcases mem_or_eq_of_mem_set mem with old | rfl
    · exact calm live other old
    · exact fun _ => id

/-- The next event moves from the channel to the client, or the stream ends. -/
theorem Inv.receive {index : Nat} {received : List WorkflowEvent} (inv : Inv s)
    (found : s.subscribers[index]? = some subscriber) (live : subscriber.phase = .live received)
    (moved : s.next index subscriber received = some next) : Inv next := by
  have fine := inv.fine subscriber (mem_of_getElem? found)
  unfold Subscriber.Fine at fine
  rw [live] at fine
  obtain ⟨awaits, told⟩ := fine
  unfold State.next at moved
  split at moved
  next event queue waiting =>
    cases moved
    have same : received ++ [event] ++ queue = received ++ subscriber.queue := by
      rw [waiting, append_assoc, singleton_append]
    refine inv.enter found ⟨?_, ?_⟩
    · rw [same]
      exact awaits
    · rw [same]
      exact told
  next waiting =>
    split at moved
    next => cases moved
    next gone =>
      cases moved
      rw [waiting, append_nil] at awaits told
      -- the channel is dropped, so the terminal event has come through it
      rcases awaits with ⟨-, here, -⟩ | ⟨closed, ended, quiet⟩
      · exact absurd here gone
      · refine inv.enter found ⟨ended, fun row mem => (told row mem).resolve_left ?_, closed⟩
        rcases quiet with announced | ⟨absent, -⟩
        · rw [announced]
          exact id
        · rw [absent]
          exact id

theorem Inv.step {action : Action} (inv : Inv s) (stepped : step s action = some next) (calm : Calm s action) :
    Inv next := by
  cases action with
  | run =>
    simp only [Streaming.step] at stepped
    split at stepped
    next absent =>
      split at stepped
      next live =>
        cases stepped
        refine inv.go_on live live rfl rfl rfl rfl nofun nofun fun row mem => .inr ⟨mem, ?_⟩
        rw [absent]
        exact id
      next => cases stepped
    next => cases stepped
  | mark =>
    simp only [Streaming.step] at stepped
    split at stepped
    next loading =>
      cases stepped
      have live : s.status.isLive = true := by
        apply inv.live
        all_goals rw [loading]; exact nofun
      refine inv.go_on live rfl rfl rfl rfl rfl nofun nofun fun row mem => .inr ⟨mem, ?_⟩
      rw [loading]
      exact id
    next => cases stepped
  | retry nodeId run =>
    simp only [Streaming.step] at stepped
    split at stepped
    next retried between =>
      split at stepped
      next same =>
        cases stepped
        exact inv.persist between same rfl nofun nofun
      next => cases stepped
    next => cases stepped
  | record nodeId run =>
    simp only [Streaming.step] at stepped
    split at stepped
    next retried between =>
      split at stepped
      next same =>
        cases stepped
        exact inv.persist between same rfl nofun nofun
      next => cases stepped
    next => cases stepped
  | publishNode =>
    simp only [Streaming.step] at stepped
    split at stepped
    next nodeId run recorded =>
      cases stepped
      have live : s.status.isLive = true := by
        apply inv.live
        all_goals rw [recorded]; exact nofun
      refine inv.publish (fun ended => absurd live (by rw [ended]; decide)) (fun _ => ⟨nofun, nofun⟩) ?_
      exact fun subscriber mem => (inv.fine subscriber mem).publish_node live recorded
    next => cases stepped
  | finish succeeded error =>
    simp only [Streaming.step] at stepped
    split at stepped
    next between =>
      cases stepped
      have live : s.status.isLive = true := by
        apply inv.live
        all_goals rw [between]; exact nofun
      refine inv.end_live live (by cases succeeded <;> rfl) ?_ (.inr (.inr ⟨_, _, rfl⟩)) (.inr (.inl ⟨_, _, rfl⟩))
      rw [between]
      exact fun _ => id
    next => cases stepped
  | giveUp =>
    have gives (here : s.runner = .loading ∨ s.runner = .between none) : Inv { s with runner := .absent } := by
      have live : s.status.isLive = true := by
        apply inv.live
        all_goals rcases here with here | here <;> rw [here] <;> exact nofun
      refine inv.go_on live live rfl rfl rfl rfl nofun nofun fun row mem => .inr ⟨mem, ?_⟩
      rcases here with here | here
      all_goals rw [here]; exact id
    simp only [Streaming.step] at stepped
    split at stepped
    next loading =>
      cases stepped
      exact gives (.inl loading)
    next between =>
      cases stepped
      exact gives (.inr between)
    next => cases stepped
  | publishDone =>
    simp only [Streaming.step] at stepped
    split at stepped
    next status error finished =>
      cases stepped
      cases ended : s.status.isLive with
      | true => exact absurd finished ((inv.finishing ended).2 status error)
      | false =>
        refine inv.publish (fun _ => .inr (.inl rfl)) (fun live => absurd live (by rw [ended]; decide)) ?_
        exact fun subscriber mem => (inv.fine subscriber mem).publish_done ended finished
    next => cases stepped
  | closeRun =>
    simp only [Streaming.step] at stepped
    split at stepped
    next announced =>
      cases stepped
      cases ended : s.status.isLive with
      | true => exact absurd announced (inv.finishing ended).1
      | false => exact inv.drop ended (.inr ⟨announced, rfl⟩) (inv.announced_quiet announced)
    next => cases stepped
  | fail =>
    cases stepped
    refine inv.failing ?_ ?_
    · intro mem
      exact .inl ((mem_append.mp mem).resolve_right fun new => nomatch mem_singleton.mp new)
    · exact fun closing => mem_append_left _ closing
  | failWrite index =>
    simp only [Streaming.step] at stepped
    split at stepped
    next writing =>
      cases stepped
      have inside : index < s.failings.length := (List.getElem?_eq_some_iff.mp writing).1
      have closing : Failing.closing ∈ s.failings.set index .closing := mem_set inside _
      cases live : s.status.isLive with
      | true =>
        have absent : s.runner = .absent := calm live
        rw [if_pos rfl]
        refine inv.end_live live rfl ?_ (.inl absent) (.inr (.inr ⟨absent, closing⟩))
        rw [absent]
        exact fun _ => id
      | false =>
        rw [if_neg (by decide)]
        exact inv.failing (fun _ => .inr live) fun _ => closing
    next => cases stepped
  | failClose index =>
    simp only [Streaming.step] at stepped
    split at stepped
    next closing =>
      cases stepped
      exact inv.drop (inv.failed (mem_of_getElem? closing)) (.inl rfl) calm
    next => cases stepped
  | attach =>
    cases stepped
    exact inv.subscribe
  | readStatus index =>
    obtain ⟨subscriber, found, stepped⟩ := Option.bind_eq_some_iff.mp stepped
    split at stepped
    next attached =>
      cases stepped
      have fine := inv.fine subscriber (mem_of_getElem? found)
      unfold Subscriber.Fine at fine
      rw [attached] at fine
      refine inv.enter found ⟨fun live => ?_, id⟩
      obtain ⟨here, quiet⟩ := fine live
      exact .inl ⟨quiet, here, .inl live⟩
    next => cases stepped
  | readRows index =>
    obtain ⟨subscriber, found, stepped⟩ := Option.bind_eq_some_iff.mp stepped
    split at stepped
    next status informed =>
      cases stepped
      refine inv.replay found informed fun wasEnded => calm subscriber found ?_
      rw [informed, Phase.terminal, wasEnded]
      rfl
    next => cases stepped
  | receive index =>
    obtain ⟨subscriber, found, stepped⟩ := Option.bind_eq_some_iff.mp stepped
    split at stepped
    next received live => exact inv.receive found live stepped
    next => cases stepped
  | disconnect index =>
    obtain ⟨subscriber, found, stepped⟩ := Option.bind_eq_some_iff.mp stepped
    cases stepped
    exact inv.enter found trivial

theorem Inv.initial : Inv start :=
  ⟨fun ended => absurd ended (by decide), fun _ => ⟨nofun, nofun⟩, nofun, nofun, nofun, nofun⟩

theorem Inv.served (inv : Inv s) : Served s := by
  intro subscriber mem
  have fine := inv.fine subscriber mem
  obtain ⟨channel, queue, phase⟩ := subscriber
  cases phase with
  | ended received => exact fine.2
  | live received =>
    intro settled
    obtain ⟨awaits, told⟩ := fine
    rcases awaits with ⟨-, -, live | ⟨status, error, finished⟩ | ⟨-, closing⟩⟩ | ⟨closed, -, announced | ⟨absent, gone⟩⟩
    · exact absurd live (by rw [settled.ended]; decide)
    · exact nomatch settled.ran.symm.trans finished
    · exact absurd closing settled.failed
    · exact nomatch settled.ran.symm.trans announced
    · refine ⟨⟨fun row listed => (told row listed).resolve_left ?_, closed⟩, gone⟩
      rw [absent]
      exact id
  | attached | informed | gone => exact trivial

/-- In every run whose steps are calm, a stream that has ended was complete, and when the
    execution is settled, every other stream is completed by what is in its channel. -/
theorem streams_complete {actions : List Action} (ran : run step start actions = some s)
    (along : Along step Calm start actions) : Served s :=
  (run_along Inv.step Inv.initial ran along).served

end Invariant

/-! ## Two clients at the end of a run -/

section Examples

def greeting : NodeRun := ⟨.succeeded, .null, some .null, none, 1⟩

/-- A client attaches to the running execution. -/
def watched : List Action := [.run, .mark, .attach, .readStatus 0, .readRows 0]

/-- A node is recorded and published, and the final status is written. -/
def ended : List Action := [.record ['n'] greeting, .publishNode, .finish true none]

/-- The runner publishes the end and drops the channel. -/
def told : List Action := [.publishDone, .closeRun]

/-- A second client attaches, and reads the final status. -/
def second : List Action := [.attach, .readStatus 1, .readRows 1]

/-- The first client takes what its channel has. -/
def drained (events : Nat) : List Action := replicate (events + 1) (.receive 0)

theorem watched_complete :
    ∃ s, run step start (watched ++ ended ++ told ++ second ++ drained 2) = some s ∧ Served s := by
  have possible : (run step start (watched ++ ended ++ told ++ second ++ drained 2)).isSome = true := by decide
  obtain ⟨s, ran⟩ := Option.isSome_iff_exists.mp possible
  exact ⟨s, ran, streams_complete ran (by decide)⟩

def greeted : WorkflowEvent := .ofRow (['n'], greeting)

/-- A second client that comes between the final status and the terminal event takes the
    channel away from the first one, and so does a failure by the scheduler. -/
theorem watcher_cut_off :
    (∃ s, run step start (watched ++ ended ++ second ++ told ++ drained 1) = some s ∧ ¬Served s) ∧
    ∃ s, run step start (watched ++ [Action.giveUp, .fail, .failWrite 0, .failClose 0] ++ drained 0) = some s ∧ ¬Served s := by
  constructor
  · refine ⟨⟨.succeeded, [(['n'], greeting)], none, 2,
      [⟨0, [], .ended [greeted]⟩, ⟨0, [], .ended [greeted, .done .succeeded none]⟩], .absent, []⟩, rfl, ?_⟩
    intro served
    exact (served _ List.mem_cons_self).2.not_noDone (by decide)
  · refine ⟨⟨.failed, [], none, 1, [⟨0, [], .ended []⟩], .absent, [.over]⟩, rfl, ?_⟩
    intro served
    exact (served _ List.mem_cons_self).2.not_noDone (by decide)

end Examples

end RootCx.Workflow.Streaming
