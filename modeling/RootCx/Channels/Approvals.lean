import RootCx.Lib.Lookup
import RootCx.Lib.Slots
import RootCx.Lib.Text

/-! # Pending approvals

`PendingApprovals` of `extensions/agents/approvals.rs`: a table of the requests that wait
for an answer, each with the sending end of a channel of its own.  The table is behind a
mutex, so each operation is one step.

An entry and the channel it answers into go together: the answer takes the entry out.
That is why a channel gets one answer at most, and why the owner of the entry is the owner
that the waiting end was made for.
-/

namespace RootCx.Channels

open RootCx.Text List

def APPROVAL_TIMEOUT : Nat := 600 * 1000000000

structure ApprovalOwner where
  userId : Nat
  origin : Option Text
  deriving DecidableEq, Repr

structure ApprovalRequest where
  owner : ApprovalOwner
  approvalId : Text
  appId : Text
  sessionId : Text
  invokeId : Text
  callId : Text
  toolName : Text
  args : Text
  reason : Text
  createdAt : Text
  deriving DecidableEq, Repr

inductive ApprovalResponse where
  | approved
  | rejected (reason : Text)
  deriving DecidableEq, Repr

structure PendingEntry where
  request : ApprovalRequest
  /-- The waiter that the sending end leads to. -/
  tx : Nat
  expiresAt : Nat
  deriving DecidableEq, Repr

/-- An answer in a channel, with the reply that it is, by whom and when. -/
structure Received where
  response : ApprovalResponse
  reply : Option (ApprovalOwner × Nat)
  deriving DecidableEq, Repr

/-- The receiving end of a channel, with the request that it was made for. -/
structure Waiter where
  request : ApprovalRequest
  expiresAt : Nat
  dropped : Bool
  received : List Received
  deriving DecidableEq, Repr

structure PendingApprovals where
  pending : List PendingEntry
  waiters : List Waiter
  deriving DecidableEq, Repr

namespace PendingApprovals

variable (approvals : PendingApprovals)

/-- `HashMap::get` -/
def get (id : Text) : Option PendingEntry := approvals.pending.find? (·.request.approvalId = id)

def remove (id : Text) : PendingApprovals :=
  { approvals with pending := approvals.pending.filter (·.request.approvalId ≠ id) }

/-- `oneshot::Sender::is_closed` -/
def isClosed (tx : Nat) : Bool := approvals.waiters[tx]?.all (·.dropped)

/-- `oneshot::Sender::send` -/
def send (tx : Nat) (received : Received) : PendingApprovals :=
  if approvals.isClosed tx then approvals
  else { approvals with waiters := approvals.waiters.modify tx fun waiter => { waiter with received := received :: waiter.received } }

/-- A request that was called at some time comes into the table. -/
def request (request : ApprovalRequest) (called : Nat) : PendingApprovals :=
  let expiresAt := called + APPROVAL_TIMEOUT
  { pending := (approvals.remove request.approvalId).pending ++ [⟨request, approvals.waiters.length, expiresAt⟩]
    waiters := approvals.waiters ++ [⟨request, expiresAt, false, []⟩] }

def expire (id : Text) (entry : PendingEntry) : PendingApprovals :=
  (approvals.remove id).send entry.tx ⟨.rejected "expired", none⟩

def consume (now : Nat) (id : Text) (app : Option Text) (owner : ApprovalOwner) (response : ApprovalResponse) :
    Bool × PendingApprovals :=
  match approvals.get id with
  | none => (false, approvals)
  | some entry =>
    -- Expiry is enforced here even when the timer of the waiting worker is delayed.
    if entry.expiresAt ≤ now then (false, approvals.expire id entry)
    else if entry.request.owner ≠ owner || app.any (entry.request.appId ≠ ·) then (false, approvals)
    else (!approvals.isClosed entry.tx, (approvals.remove id).send entry.tx ⟨response, some (owner, now)⟩)

def reply (now : Nat) (id : Text) (owner : ApprovalOwner) (response : ApprovalResponse) : Bool × PendingApprovals :=
  approvals.consume now id none owner response

def replyForApp (now : Nat) (id app : Text) (owner : ApprovalOwner) (response : ApprovalResponse) :
    Bool × PendingApprovals :=
  approvals.consume now id (some app) owner response

def cancel (id reason : Text) : PendingApprovals :=
  match approvals.get id with
  | none => approvals
  | some entry => (approvals.remove id).send entry.tx ⟨.rejected reason, none⟩

def list (now : Nat) (app : Text) (owner : ApprovalOwner) : List ApprovalRequest :=
  (approvals.pending.filter fun entry =>
    entry.request.appId = app && entry.request.owner = owner && now < entry.expiresAt && !approvals.isClosed entry.tx).map (·.request)

/-- The worker stops waiting. -/
def dropWaiter (tx : Nat) : PendingApprovals :=
  { approvals with waiters := approvals.waiters.modify tx fun waiter => { waiter with dropped := true } }

end PendingApprovals

/-! ## Entries and their channels -/

/-- An answer approves only as a reply of the owner before the expiry. -/
def Waiter.Bound (waiter : Waiter) : Prop :=
  waiter.received.length ≤ 1 ∧ ∀ answer ∈ waiter.received, answer.response = .approved →
    ∃ time, answer.reply = some (waiter.request.owner, time) ∧ time < waiter.expiresAt

/-- The channel of an entry is unanswered, and is its own. -/
structure PendingApprovals.Sound (approvals : PendingApprovals) : Prop where
  keys : (approvals.pending.map (·.request.approvalId)).Nodup
  channels : (approvals.pending.map (·.tx)).Nodup
  entries : ∀ entry ∈ approvals.pending, ∃ waiter, approvals.waiters[entry.tx]? = some waiter ∧
    waiter.request = entry.request ∧ waiter.expiresAt = entry.expiresAt ∧ waiter.received = []
  waiters : ∀ waiter ∈ approvals.waiters, waiter.Bound

variable {id : Text} {entry : PendingEntry}

namespace PendingApprovals

variable {approvals : PendingApprovals}

theorem get_some (found : approvals.get id = some entry) :
    entry ∈ approvals.pending ∧ entry.request.approvalId = id := by
  have here := find?_some found
  exact ⟨mem_of_find?_eq_some found, of_decide_eq_true here⟩

theorem Sound.remove (sound : approvals.Sound) (id : Text) : (approvals.remove id).Sound where
  keys := sound.keys.sublist (filter_sublist.map _)
  channels := sound.channels.sublist (filter_sublist.map _)
  entries entry mem := sound.entries entry (mem_of_mem_filter mem)
  waiters := sound.waiters

theorem mem_modify {waiters : List Waiter} {tx : Nat} {change : Waiter → Waiter} {waiter : Waiter}
    (mem : waiter ∈ waiters.modify tx change) :
    waiter ∈ waiters ∨ ∃ before, waiters[tx]? = some before ∧ waiter = change before := by
  obtain ⟨place, found⟩ := mem_iff_getElem?.mp mem
  rw [getElem?_modify] at found
  obtain ⟨before, there, changed⟩ := Option.map_eq_some_iff.mp found
  by_cases here : tx = place
  · rw [if_pos here] at changed
    exact .inr ⟨before, here ▸ there, changed.symm⟩
  · rw [if_neg here] at changed
    exact .inl (changed ▸ mem_of_getElem? there)

/-- An entry is taken out and its channel is answered: the other entries do not share it. -/
theorem Sound.answer (sound : approvals.Sound) (mem : entry ∈ approvals.pending) {answer : Received}
    (fits : answer.response = .approved → ∃ time, answer.reply = some (entry.request.owner, time) ∧ time < entry.expiresAt) :
    ((approvals.remove entry.request.approvalId).send entry.tx answer).Sound := by
  have removed := sound.remove entry.request.approvalId
  unfold send
  split
  · exact removed
  · have apart {other : PendingEntry} (still : other ∈ (approvals.remove entry.request.approvalId).pending) : entry.tx ≠ other.tx := by
      intro same
      obtain ⟨inside, differs⟩ := mem_filter.mp still
      have := inj_on_of_nodup_map sound.channels mem inside same
      rw [this] at differs
      exact of_decide_eq_true differs rfl
    refine ⟨removed.keys, removed.channels, ?_, ?_⟩
    · intro other still
      obtain ⟨waiter, there, fields⟩ := removed.entries other still
      refine ⟨waiter, ?_, fields⟩
      simp only [getElem?_modify, there, if_neg (apart still)]
      rfl
    · intro waiter inside
      obtain older | ⟨before, there, rfl⟩ := mem_modify inside
      · exact sound.waiters waiter older
      · obtain ⟨same, there', request, expires, unanswered⟩ := sound.entries entry mem
        cases there'.symm.trans there
        refine ⟨by simp [unanswered], ?_⟩
        intro given among approves
        rw [unanswered] at among
        obtain rfl := mem_singleton.mp among
        obtain ⟨time, reply, before⟩ := fits approves
        exact ⟨time, request ▸ reply, expires ▸ before⟩

theorem Sound.request (sound : approvals.Sound) (request : ApprovalRequest) (called : Nat) :
    (approvals.request request called).Sound := by
  have removed := sound.remove request.approvalId
  have below {entry : PendingEntry} (mem : entry ∈ approvals.pending) : entry.tx < approvals.waiters.length := by
    obtain ⟨waiter, there, -⟩ := sound.entries entry mem
    exact (List.getElem?_eq_some_iff.mp there).1
  refine ⟨?_, ?_, ?_, ?_⟩
  · simp only [PendingApprovals.request, map_append, map_cons, map_nil]
    refine List.Nodup.append removed.keys (nodup_singleton _) ?_
    intro id older new
    obtain ⟨entry, mem, rfl⟩ := mem_map.mp older
    exact of_decide_eq_true (mem_filter.mp mem).2 (mem_singleton.mp new)
  · simp only [PendingApprovals.request, map_append, map_cons, map_nil]
    refine List.Nodup.append removed.channels (nodup_singleton _) ?_
    intro tx older new
    obtain ⟨entry, mem, rfl⟩ := mem_map.mp older
    exact absurd (mem_singleton.mp new) (Nat.ne_of_lt (below (mem_of_mem_filter mem)))
  · intro entry mem
    obtain older | new := mem_append.mp mem
    · obtain ⟨waiter, there, fields⟩ := removed.entries entry older
      refine ⟨waiter, ?_, fields⟩
      exact (getElem?_append_left (below (mem_of_mem_filter older))).trans there
    · obtain rfl := mem_singleton.mp new
      exact ⟨_, getElem?_concat_length, rfl, rfl, rfl⟩
  · intro waiter mem
    obtain older | new := mem_append.mp mem
    · exact sound.waiters waiter older
    · obtain rfl := mem_singleton.mp new
      exact ⟨Nat.zero_le 1, fun _ among => absurd among not_mem_nil⟩

theorem Sound.consume (sound : approvals.Sound) (now : Nat) (id : Text) (app : Option Text) (owner : ApprovalOwner)
    (response : ApprovalResponse) : (approvals.consume now id app owner response).2.Sound := by
  unfold PendingApprovals.consume
  cases found : approvals.get id with
  | none => exact sound
  | some entry =>
    obtain ⟨mem, rfl⟩ := get_some found
    dsimp only
    by_cases expired : entry.expiresAt ≤ now
    · rw [if_pos expired]
      exact sound.answer mem (fun approves => nomatch approves)
    · rw [if_neg expired]
      split
      · exact sound
      · next mine =>
        have same : entry.request.owner = owner := by
          by_contra differs
          exact mine (by simp [differs])
        exact sound.answer mem fun _ => ⟨now, by rw [same], Nat.lt_of_not_le expired⟩

theorem Sound.cancel (sound : approvals.Sound) (id reason : Text) : (approvals.cancel id reason).Sound := by
  unfold PendingApprovals.cancel
  cases found : approvals.get id with
  | none => exact sound
  | some entry =>
    obtain ⟨mem, rfl⟩ := get_some found
    exact sound.answer mem (fun approves => nomatch approves)

theorem Sound.dropWaiter (sound : approvals.Sound) (tx : Nat) : (approvals.dropWaiter tx).Sound where
  keys := sound.keys
  channels := sound.channels
  entries entry mem := by
    obtain ⟨waiter, there, request, expires, unanswered⟩ := sound.entries entry mem
    refine ⟨if tx = entry.tx then { waiter with dropped := true } else waiter, ?_, ?_, ?_, ?_⟩
    · simp only [PendingApprovals.dropWaiter, getElem?_modify, there]
      split <;> rfl
    all_goals split <;> assumption
  waiters waiter mem := by
    obtain older | ⟨before, there, rfl⟩ := mem_modify mem
    · exact sound.waiters waiter older
    · exact sound.waiters before (mem_of_getElem? there)

/-! ## What a stranger can do, and see -/

/-- The part of the table that an identity owns. -/
def ofOwner (approvals : PendingApprovals) (owner : ApprovalOwner) : PendingApprovals :=
  { approvals with pending := approvals.pending.filter (·.request.owner = owner) }

/-- A table without the entries that have expired under an id. -/
def lapse (approvals : PendingApprovals) (now : Nat) (id : Text) : PendingApprovals :=
  match approvals.get id with
  | none => approvals
  | some entry => if entry.expiresAt ≤ now then approvals.expire id entry else approvals

theorem consume_stranger {now : Nat} {app : Option Text} {owner : ApprovalOwner} {response : ApprovalResponse}
    (stranger : ∀ entry ∈ approvals.get id, entry.request.owner ≠ owner) :
    approvals.consume now id app owner response = (false, approvals.lapse now id) := by
  unfold consume lapse
  cases found : approvals.get id with
  | none => rfl
  | some entry =>
    dsimp only
    by_cases expired : entry.expiresAt ≤ now
    · rw [if_pos expired, if_pos expired]
    · rw [if_neg expired, if_neg expired, if_pos]
      simp [stranger entry found]

theorem Sound.get_iff (sound : approvals.Sound) :
    approvals.get id = some entry ↔ entry ∈ approvals.pending ∧ entry.request.approvalId = id :=
  find?_key_eq_some sound.keys

theorem Sound.ofOwner (sound : approvals.Sound) (owner : ApprovalOwner) : (approvals.ofOwner owner).Sound where
  keys := sound.keys.sublist (filter_sublist.map _)
  channels := sound.channels.sublist (filter_sublist.map _)
  entries entry mem := sound.entries entry (mem_of_mem_filter mem)
  waiters := sound.waiters

theorem Sound.get_ofOwner (sound : approvals.Sound) (id : Text) (owner : ApprovalOwner) :
    (approvals.ofOwner owner).get id = (approvals.get id).filter (·.request.owner = owner) := by
  apply Option.ext
  intro entry
  rw [(sound.ofOwner owner).get_iff, Option.filter_eq_some_iff, sound.get_iff]
  simp only [PendingApprovals.ofOwner, mem_filter]
  exact and_right_comm

theorem consume_eq_true {now : Nat} {app : Option Text} {owner : ApprovalOwner} {response : ApprovalResponse} :
    (approvals.consume now id app owner response).1 = true ↔
      ∃ entry, approvals.get id = some entry ∧ entry.request.owner = owner ∧ now < entry.expiresAt ∧
        app.all (entry.request.appId = ·) = true ∧ approvals.isClosed entry.tx = false := by
  unfold PendingApprovals.consume
  cases found : approvals.get id with
  | none => simp
  | some entry =>
    simp only [Option.some.injEq, exists_eq_left']
    by_cases expired : entry.expiresAt ≤ now
    · simp [expired, Nat.not_lt.mpr expired]
    · by_cases mine : entry.request.owner = owner
      · cases app <;> simp [expired, mine, Nat.lt_of_not_le expired]
        split <;> simp_all
      · simp [expired, mine]

theorem Sound.consume_ofOwner (sound : approvals.Sound) (now : Nat) (id : Text) (app : Option Text) (owner : ApprovalOwner)
    (response : ApprovalResponse) :
    (approvals.consume now id app owner response).1 = ((approvals.ofOwner owner).consume now id app owner response).1 := by
  apply Bool.eq_iff_iff.mpr
  rw [consume_eq_true, consume_eq_true]
  apply exists_congr
  intro entry
  rw [sound.get_ofOwner, Option.filter_eq_some_iff, decide_eq_true_eq]
  have closed : (approvals.ofOwner owner).isClosed entry.tx = approvals.isClosed entry.tx := rfl
  rw [closed]
  tauto

theorem list_ofOwner (approvals : PendingApprovals) (now : Nat) (app : Text) (owner : ApprovalOwner) :
    approvals.list now app owner = (approvals.ofOwner owner).list now app owner := by
  unfold list ofOwner
  dsimp only
  rw [filter_filter]
  congr 1
  apply filter_congr
  intro entry _
  by_cases mine : entry.request.owner = owner
  · simp [mine, isClosed]
  · simp [mine]

end PendingApprovals

end RootCx.Channels
