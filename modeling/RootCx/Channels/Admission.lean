import RootCx.Channels.Intake

/-! # Deliveries once, answers once

A delivery is processed under a committed receipt of its own, which no other one can get
while it is there; a message of a chat besides holds the place of its chat among the
running ones.  The rows of open transactions count for both, so the invariant names the
row of every delivery between its insert and its last receipt.
-/

namespace RootCx.Channels

open RootCx.Text List Option

variable {parseUuid : Text → Option Text} {hash : Text → Int} {s s' : State}

theorem Intake.row_running (intake : Intake) (tx : Option Nat) : (intake.row tx).running = intake.isMessage := by
  simp [Receipt.running, Intake.row]

/-- The rows behind the deliveries. -/
structure Inv (s : State) : Prop where
  open' : ∀ row ∈ s.receipts.rows, ∀ index, row.tx = some index →
    ∃ delivery, s.deliveries[index]? = some delivery ∧ delivery.stage = .inserted true
  own : ∀ (index : Nat) (delivery : Delivery), s.deliveries[index]? = some delivery → delivery.stage = .inserted true →
    delivery.intake.row (some index) ∈ s.receipts.rows
  behind : ∀ (index : Nat) (delivery : Delivery), s.deliveries[index]? = some delivery → delivery.stage.runs = true →
    delivery.intake.row none ∈ s.receipts.rows
  alone : ∀ (index other : Nat) (delivery delivery' : Delivery), s.deliveries[index]? = some delivery →
    s.deliveries[other]? = some delivery' → delivery.stage.runs = true → delivery'.stage.runs = true →
      delivery.intake.key = delivery'.intake.key → index = other
  once : s.processed.Nodup
  recorded : ∀ key ∈ s.processed, ∃ row ∈ s.receipts.rows, row.key = key ∧ row.tx = none
  running : ∀ (index : Nat) (delivery : Delivery), s.deliveries[index]? = some delivery → delivery.stage.runs = true →
    delivery.intake.key ∈ s.processed
  callbacks : ∀ delivery ∈ s.deliveries, delivery.intake.isMessage = false →
    delivery.stage ≠ .unseen ∧ delivery.stage ≠ .ended .busy
  sound : s.approvals.Sound

variable {row : Receipt} {tx index : Nat} {delivery : Delivery}

/-! ## Rows -/

theorem Receipts.eq_of_key (receipts : Receipts) {other : Receipt} (mem : row ∈ receipts.rows)
    (inside : other ∈ receipts.rows) (same : row.key = other.key) : row = other :=
  inj_on_of_nodup_map receipts.primary mem inside same

theorem Receipts.eq_of_conversation (receipts : Receipts) {other : Receipt} (mem : row ∈ receipts.rows)
    (inside : other ∈ receipts.rows) (runs : row.running = true) (running : other.running = true)
    (same : row.conversation = other.conversation) : row = other :=
  inj_on_of_nodup_map receipts.runningChat (mem_filter.mpr ⟨mem, runs⟩) (mem_filter.mpr ⟨inside, running⟩) same

theorem Receipts.mem_commit {receipts : Receipts} :
    row ∈ (receipts.commit tx).rows ↔ ∃ before ∈ receipts.rows, Receipts.commitRow tx before = row :=
  mem_map

theorem Receipts.mem_rollback {receipts : Receipts} :
    row ∈ (receipts.rollback tx).rows ↔ row ∈ receipts.rows ∧ row.tx ≠ some tx := by
  simp [Receipts.rollback, Receipts.keep]

theorem Receipts.commitRow_self (own : row.tx = some tx) :
    Receipts.commitRow tx row = { row with tx := none } :=
  if_pos own

theorem Receipts.commitRow_other (other : row.tx ≠ some tx) : Receipts.commitRow tx row = row :=
  if_neg other

theorem Receipts.finishRow_key (channel delivery : Text) (succeeded : Bool) (row : Receipt) :
    (Receipts.finishRow channel delivery succeeded row).key = row.key ∧
      (Receipts.finishRow channel delivery succeeded row).tx = row.tx := by
  unfold Receipts.finishRow
  split <;> exact ⟨rfl, rfl⟩

/-! ## Deliveries -/

/-- Where a delivery comes to a stage that does not run, who runs has run before. -/
theorem Inv.alone_rests (inv : Inv s) (found : s.deliveries[index]? = some delivery) {stage : Stage} (rests : stage.runs = false)
    (i j : Nat) (first second : Delivery) (foundFirst : (s.setStage index delivery stage).deliveries[i]? = some first)
    (foundSecond : (s.setStage index delivery stage).deliveries[j]? = some second) (runsFirst : first.stage.runs = true)
    (runsSecond : second.stage.runs = true) : first.intake.key = second.intake.key → i = j := by
  obtain ⟨-, rfl⟩ | ⟨-, foundFirst⟩ := (Slots.set_iff found).mp foundFirst
  · exact nomatch rests.symm.trans runsFirst
  obtain ⟨-, rfl⟩ | ⟨-, foundSecond⟩ := (Slots.set_iff found).mp foundSecond
  · exact nomatch rests.symm.trans runsSecond
  exact inv.alone i j first second foundFirst foundSecond runsFirst runsSecond

theorem Inv.running_rests (inv : Inv s) (found : s.deliveries[index]? = some delivery) {stage : Stage} (rests : stage.runs = false)
    (at' : Nat) (other : Delivery) (there : (s.setStage index delivery stage).deliveries[at']? = some other)
    (running : other.stage.runs = true) : other.intake.key ∈ s.processed := by
  obtain ⟨-, rfl⟩ | ⟨-, there⟩ := (Slots.set_iff found).mp there
  · exact nomatch rests.symm.trans running
  · exact inv.running at' other there running

theorem Inv.callbacks_set (inv : Inv s) (found : s.deliveries[index]? = some delivery) {stage : Stage}
    (callback : delivery.intake.isMessage = false → stage ≠ .unseen ∧ stage ≠ .ended .busy) :
    ∀ other ∈ (s.setStage index delivery stage).deliveries, other.intake.isMessage = false →
      other.stage ≠ .unseen ∧ other.stage ≠ .ended .busy := by
  intro other mem callback'
  obtain rfl | ⟨at', -, there⟩ := Slots.mem_set found mem
  · exact callback callback'
  · exact inv.callbacks other (mem_of_getElem? there) callback'

/-- A delivery goes on and neither has an open row nor begins to be processed. -/
theorem Inv.move (inv : Inv s) (found : s.deliveries[index]? = some delivery) {stage : Stage}
    (shut : delivery.stage ≠ .inserted true) (shut' : stage ≠ .inserted true)
    (runs : stage.runs = true → delivery.stage.runs = true)
    (callback : delivery.intake.isMessage = false → stage ≠ .unseen ∧ stage ≠ .ended .busy) :
    Inv (s.setStage index delivery stage) where
  open' row mem at' own := by
    obtain ⟨owner, there, inserted⟩ := inv.open' row mem at' own
    refine ⟨owner, (Slots.set_iff found).mpr (.inr ⟨?_, there⟩), inserted⟩
    rintro rfl
    cases found.symm.trans there
    exact shut inserted
  own at' other there inserted := by
    obtain ⟨rfl, rfl⟩ | ⟨-, there⟩ := (Slots.set_iff found).mp there
    · exact absurd inserted shut'
    · exact inv.own at' other there inserted
  behind at' other there running := by
    obtain ⟨rfl, rfl⟩ | ⟨-, there⟩ := (Slots.set_iff found).mp there
    · exact inv.behind at' delivery found (runs running)
    · exact inv.behind at' other there running
  alone i j first second foundFirst foundSecond runsFirst runsSecond same := by
    have was {at' : Nat} {other : Delivery} (there : (s.setStage index delivery stage).deliveries[at']? = some other)
        (running : other.stage.runs = true) :
        ∃ before, s.deliveries[at']? = some before ∧ before.stage.runs = true ∧ before.intake = other.intake := by
      obtain ⟨rfl, rfl⟩ | ⟨-, there⟩ := (Slots.set_iff found).mp there
      · exact ⟨delivery, found, runs running, rfl⟩
      · exact ⟨other, there, running, rfl⟩
    obtain ⟨first', wasFirst, ranFirst, sameFirst⟩ := was foundFirst runsFirst
    obtain ⟨second', wasSecond, ranSecond, sameSecond⟩ := was foundSecond runsSecond
    exact inv.alone i j first' second' wasFirst wasSecond ranFirst ranSecond (by rw [sameFirst, sameSecond, same])
  once := inv.once
  recorded := inv.recorded
  running at' other there running := by
    obtain ⟨rfl, rfl⟩ | ⟨-, there⟩ := (Slots.set_iff found).mp there
    · exact inv.running at' delivery found (runs running)
    · exact inv.running at' other there running
  callbacks := inv.callbacks_set found callback
  sound := inv.sound

theorem Inv.beside (inv : Inv s) (approvals : PendingApprovals) (now : Nat) (sound : approvals.Sound) :
    Inv { s with approvals := approvals, now := now } :=
  ⟨inv.open', inv.own, inv.behind, inv.alone, inv.once, inv.recorded, inv.running, inv.callbacks, sound⟩

theorem Inv.insert (inv : Inv s) (found : s.deliveries[index]? = some delivery)
    (clear : delivery.stage = .clear)
    (free : s.receipts.rows.any (delivery.intake.row (some index)).conflicts = false) :
    Inv { s.setStage index delivery (.inserted true) with
      receipts := s.receipts.insert (delivery.intake.row (some index)) free } where
  open' row mem at' own := by
    obtain older | new := mem_append.mp mem
    · obtain ⟨owner, there, inserted⟩ := inv.open' row older at' own
      refine ⟨owner, (Slots.set_iff found).mpr (.inr ⟨?_, there⟩), inserted⟩
      rintro rfl
      cases found.symm.trans there
      exact nomatch clear.symm.trans inserted
    · obtain rfl := mem_singleton.mp new
      cases own
      exact ⟨_, Slots.set_self found, rfl⟩
  own at' other there inserted := by
    obtain ⟨rfl, rfl⟩ | ⟨-, there⟩ := (Slots.set_iff found).mp there
    · exact mem_append_right _ mem_cons_self
    · exact mem_append_left _ (inv.own at' other there inserted)
  behind at' other there running := by
    obtain ⟨rfl, rfl⟩ | ⟨-, there⟩ := (Slots.set_iff found).mp there
    · cases running
    · exact mem_append_left _ (inv.behind at' other there running)
  alone := inv.alone_rests found rfl
  once := inv.once
  recorded key mem := by
    obtain ⟨row, inside, fields⟩ := inv.recorded key mem
    exact ⟨row, mem_append_left _ inside, fields⟩
  running := inv.running_rests found rfl
  callbacks := inv.callbacks_set found fun _ => ⟨nofun, nofun⟩
  sound := inv.sound

/-- The rows of a committing transaction belong to all; the delivery goes on, or its answer
    is lost. -/
theorem Inv.commit (inv : Inv s) (found : s.deliveries[index]? = some delivery)
    (inserted : delivery.stage = .inserted true) :
    Inv { s.setStage index delivery .processing with
        receipts := s.receipts.commit index
        processed := s.processed ++ [delivery.intake.key] } ∧
      Inv { s.setStage index delivery (.ended .failed) with receipts := s.receipts.commit index } := by
  have mine := inv.own index delivery found inserted
  -- the rows of the others stay as they are
  have kept {row : Receipt} (mem : row ∈ s.receipts.rows) (other : row.tx ≠ some index) :
      row ∈ (s.receipts.commit index).rows :=
    Receipts.mem_commit.mpr ⟨row, mem, Receipts.commitRow_other other⟩
  have committed : delivery.intake.row none ∈ (s.receipts.commit index).rows :=
    Receipts.mem_commit.mpr ⟨_, mine, Receipts.commitRow_self rfl⟩
  have open' {stage : Stage} : ∀ row ∈ (s.receipts.commit index).rows, ∀ at', row.tx = some at' →
      ∃ other, (s.setStage index delivery stage).deliveries[at']? = some other ∧ other.stage = .inserted true := by
    intro row mem at' own
    obtain ⟨before, inside, rfl⟩ := Receipts.mem_commit.mp mem
    by_cases self : before.tx = some index
    · rw [Receipts.commitRow_self self] at own
      cases own
    · rw [Receipts.commitRow_other self] at own
      obtain ⟨owner, there, inserted'⟩ := inv.open' before inside at' own
      refine ⟨owner, (Slots.set_iff found).mpr (.inr ⟨?_, there⟩), inserted'⟩
      rintro rfl
      exact self own
  have own {stage : Stage} (shut : stage ≠ .inserted true) (at' : Nat) (other : Delivery)
      (there : (s.setStage index delivery stage).deliveries[at']? = some other) (inserted' : other.stage = .inserted true) :
      other.intake.row (some at') ∈ (s.receipts.commit index).rows := by
    obtain ⟨rfl, rfl⟩ | ⟨apart, there⟩ := (Slots.set_iff found).mp there
    · exact absurd inserted' shut
    · exact kept (inv.own at' other there inserted') (fun same => apart (some.inj same))
  have behind {stage : Stage} (at' : Nat) (other : Delivery)
      (there : (s.setStage index delivery stage).deliveries[at']? = some other) (running : other.stage.runs = true) :
      other.intake.row none ∈ (s.receipts.commit index).rows := by
    obtain ⟨rfl, rfl⟩ | ⟨-, there⟩ := (Slots.set_iff found).mp there
    · exact committed
    · exact kept (inv.behind at' other there running) nofun
  have recorded : ∀ key ∈ s.processed, ∃ row ∈ (s.receipts.commit index).rows, row.key = key ∧ row.tx = none := by
    intro key mem
    obtain ⟨row, inside, same, closed⟩ := inv.recorded key mem
    exact ⟨row, kept inside (by rw [closed]; nofun), same, closed⟩
  -- a delivery that was recorded has a committed row, and the primary key has one row for both
  have fresh : delivery.intake.key ∉ s.processed := by
    intro mem
    obtain ⟨row, inside, same, closed⟩ := inv.recorded _ mem
    rw [s.receipts.eq_of_key inside mine same] at closed
    cases closed
  have callbacks {stage : Stage} (shown : stage ≠ .unseen ∧ stage ≠ .ended .busy) := inv.callbacks_set found fun _ => shown
  refine ⟨⟨open', own nofun, behind, ?_, ?_, ?_, ?_, callbacks ⟨nofun, nofun⟩, inv.sound⟩,
    ⟨open', own nofun, behind, inv.alone_rests found rfl, inv.once, recorded, inv.running_rests found rfl,
      callbacks ⟨nofun, nofun⟩, inv.sound⟩⟩
  · intro i j first second foundFirst foundSecond runsFirst runsSecond same
    obtain ⟨rfl, rfl⟩ | ⟨-, wasFirst⟩ := (Slots.set_iff found).mp foundFirst
    · obtain ⟨rfl, -⟩ | ⟨-, wasSecond⟩ := (Slots.set_iff found).mp foundSecond
      · rfl
      · exact absurd (same ▸ inv.running j second wasSecond runsSecond) fresh
    · obtain ⟨rfl, rfl⟩ | ⟨-, wasSecond⟩ := (Slots.set_iff found).mp foundSecond
      · exact absurd (same ▸ inv.running i first wasFirst runsFirst) fresh
      · exact inv.alone i j first second wasFirst wasSecond runsFirst runsSecond same
  · refine List.Nodup.append inv.once (nodup_singleton _) ?_
    intro key older new
    obtain rfl := mem_singleton.mp new
    exact fresh older
  · intro key mem
    obtain older | new := mem_append.mp mem
    · exact recorded key older
    · obtain rfl := mem_singleton.mp new
      exact ⟨_, committed, rfl, rfl⟩
  · intro at' other there running
    obtain ⟨-, rfl⟩ | ⟨-, there⟩ := (Slots.set_iff found).mp there
    · exact mem_append_right _ mem_cons_self
    · exact mem_append_left _ (inv.running at' other there running)

/-- The receipt of a processed delivery is settled; every other running delivery has a row
    under another key. -/
theorem Inv.finish (inv : Inv s) (found : s.deliveries[index]? = some delivery) {succeeded : Bool}
    (finishing : delivery.stage = .finishing succeeded) :
    Inv { s.setStage index delivery (.ended (.done succeeded)) with
      receipts := s.receipts.finish delivery.intake.channel delivery.intake.delivery succeeded } := by
  have moved : Inv (s.setStage index delivery (.ended (.done succeeded))) :=
    inv.move found (by rw [finishing]; nofun) nofun nofun fun _ => ⟨nofun, nofun⟩
  have runs : delivery.stage.runs = true := by rw [finishing]; rfl
  have change {row : Receipt} (mem : row ∈ s.receipts.rows) :
      Receipts.finishRow delivery.intake.channel delivery.intake.delivery succeeded row ∈
        (s.receipts.finish delivery.intake.channel delivery.intake.delivery succeeded).rows :=
    mem_map_of_mem mem
  refine ⟨?_, ?_, ?_, moved.alone, inv.once, ?_, moved.running, moved.callbacks, inv.sound⟩
  · intro row mem at' own
    obtain ⟨before, inside, rfl⟩ := mem_map.mp mem
    rw [(Receipts.finishRow_key _ _ _ before).2] at own
    exact moved.open' before inside at' own
  · intro at' other there inserted
    have same := change (moved.own at' other there inserted)
    rwa [Receipts.finishRow, if_neg (fun both => nomatch both.1)] at same
  · intro at' other there running
    obtain ⟨-, rfl⟩ | ⟨apart, was⟩ := (Slots.set_iff found).mp there
    · cases running
    · have same := change (inv.behind at' other was running)
      rwa [Receipts.finishRow, if_neg] at same
      intro both
      exact apart (inv.alone at' index other delivery was found running runs both.2.1)
  · intro key mem
    obtain ⟨row, inside, same, closed⟩ := inv.recorded key mem
    obtain ⟨key', tx⟩ := Receipts.finishRow_key delivery.intake.channel delivery.intake.delivery succeeded row
    exact ⟨_, change inside, key'.trans same, tx.trans closed⟩

/-- A delivery that is cut off leaves no open row. -/
theorem Inv.fail (inv : Inv s) (found : s.deliveries[index]? = some delivery)
    (failed : s.fail index delivery = some s') : Inv s' := by
  have rolled : Inv { s.setStage index delivery (.ended .failed) with receipts := s.receipts.rollback index } := by
    have kept {row : Receipt} (mem : row ∈ s.receipts.rows) (other : row.tx ≠ some index) :
        row ∈ (s.receipts.rollback index).rows :=
      Receipts.mem_rollback.mpr ⟨mem, other⟩
    refine ⟨?_, ?_, ?_, inv.alone_rests found rfl, inv.once, ?_, inv.running_rests found rfl,
      inv.callbacks_set found fun _ => ⟨nofun, nofun⟩, inv.sound⟩
    · intro row mem at' own
      obtain ⟨inside, other⟩ := Receipts.mem_rollback.mp mem
      obtain ⟨owner, there, inserted⟩ := inv.open' row inside at' own
      refine ⟨owner, (Slots.set_iff found).mpr (.inr ⟨?_, there⟩), inserted⟩
      rintro rfl
      exact other own
    · intro at' other there inserted
      obtain ⟨-, rfl⟩ | ⟨apart, was⟩ := (Slots.set_iff found).mp there
      · cases inserted
      · exact kept (inv.own at' other was inserted) (fun same => apart (some.inj same))
    · intro at' other there running
      obtain ⟨-, rfl⟩ | ⟨-, was⟩ := (Slots.set_iff found).mp there
      · cases running
      · exact kept (inv.behind at' other was running) nofun
    · intro key mem
      obtain ⟨row, inside, same, closed⟩ := inv.recorded key mem
      exact ⟨row, kept inside (by rw [closed]; nofun), same, closed⟩
  unfold State.fail at failed
  split at failed
  · cases failed
  · cases failed
    exact rolled

theorem Inv.advance (inv : Inv s) (found : s.deliveries[index]? = some delivery)
    (advanced : s.advance hash index delivery = some s') : Inv s' := by
  unfold State.advance at advanced
  cases stage : delivery.stage with
  | locking =>
    simp only [stage] at advanced
    split at advanced
    · cases advanced
    · cases advanced
      exact inv.move found (by rw [stage]; nofun) nofun nofun fun _ => ⟨nofun, nofun⟩
  | locked =>
    simp only [stage] at advanced
    split at advanced
    · cases advanced
      exact inv.move found (by rw [stage]; nofun) nofun nofun fun _ => ⟨nofun, nofun⟩
    · cases advanced
      -- a callback is not compared with what runs in its chat
      apply inv.move found (by rw [stage]; nofun)
      · split <;> nofun
      · split <;> nofun
      · intro callback
        simp [callback]
  | unseen =>
    simp only [stage] at advanced
    cases advanced
    apply inv.move found (by rw [stage]; nofun)
    · split <;> nofun
    · split <;> nofun
    · intro callback
      exact absurd stage (inv.callbacks delivery (mem_of_getElem? found) callback).1
  | clear =>
    simp only [stage] at advanced
    split at advanced
    · cases advanced
    · split at advanced
      · next free =>
        cases advanced
        exact inv.insert found stage free
      · cases advanced
        exact inv.move found (by rw [stage]; nofun) nofun nofun fun _ => ⟨nofun, nofun⟩
  | inserted new =>
    cases new with
    | false =>
      simp only [stage] at advanced
      cases advanced
      exact inv.move found (by rw [stage]; nofun) nofun nofun fun _ => ⟨nofun, nofun⟩
    | true =>
      simp only [stage] at advanced
      cases advanced
      exact (inv.commit found stage).1
  | looking =>
    simp only [stage] at advanced
    cases advanced
    refine inv.move found (by rw [stage]; nofun) (fun inserted => nomatch inserted) (fun runs => nomatch runs) fun _ => ?_
    cases s.receipts.statusOf delivery.intake.channel delivery.intake.delivery <;> exact ⟨nofun, nofun⟩
  | finishing succeeded =>
    simp only [stage] at advanced
    cases advanced
    exact inv.finish found stage
  | processing =>
    simp only [stage] at advanced
    cases advanced
  | replied =>
    simp only [stage] at advanced
    cases advanced
  | ended outcome =>
    simp only [stage] at advanced
    cases advanced

theorem Inv.answer (inv : Inv s) {owner : Option ApprovalOwner} (found : s.deliveries[index]? = some delivery)
    (answered : s.answer index delivery owner = some s') : Inv s' := by
  unfold State.answer at answered
  split at answered
  · next ready =>
    have processing : delivery.stage = .processing := of_decide_eq_true (Bool.and_eq_true _ _ ▸ ready).1
    have moved : Inv (s.setStage index delivery .replied) :=
      inv.move found (by rw [processing]; nofun) nofun (fun _ => by rw [processing]; rfl) fun _ => ⟨nofun, nofun⟩
    obtain ⟨⟨id, response⟩, -, rfl⟩ := map_eq_some_iff.mp answered
    cases owner with
    | none => exact moved
    | some owner => exact moved.beside _ _ (inv.sound.consume s.now id none owner response)
  · cases answered

theorem Inv.process (inv : Inv s) {succeeded : Bool} (found : s.deliveries[index]? = some delivery)
    (processed : s.process index delivery succeeded = some s') : Inv s' := by
  unfold State.process at processed
  split at processed
  · next ready =>
    cases processed
    simp only [Bool.and_eq_true, Bool.or_eq_true, decide_eq_true_eq] at ready
    refine inv.move found ?_ (fun inserted => nomatch inserted) (fun _ => ?_) fun _ => ⟨nofun, nofun⟩
    · obtain stage | stage := ready.1 <;> rw [stage] <;> nofun
    · obtain stage | stage := ready.1 <;> rw [stage] <;> rfl
  · cases processed

theorem PendingApprovals.Sound.restart {approvals : PendingApprovals} (sound : approvals.Sound) :
    PendingApprovals.Sound ⟨[], approvals.waiters.map fun waiter => { waiter with dropped := true }⟩ where
  keys := nodup_nil
  channels := nodup_nil
  entries _ mem := absurd mem not_mem_nil
  waiters waiter mem := by
    obtain ⟨before, inside, rfl⟩ := mem_map.mp mem
    exact sound.waiters before inside

theorem Inv.step {action : Action} (inv : Inv s) (stepped : step parseUuid hash s action = some s') : Inv s' := by
  cases action with
  | tick nanos =>
    cases stepped
    exact inv.beside s.approvals _ inv.sound
  | deliver request =>
    simp only [Channels.step] at stepped
    split at stepped
    · next intake _ =>
      cases stepped
      have older {at' : Nat} {other : Delivery} (there : (s.deliveries ++ [⟨intake, .locking⟩])[at']? = some other)
          (begun : other.stage ≠ .locking) : s.deliveries[at']? = some other := by
        obtain ⟨-, rfl⟩ | older := Slots.concat_iff.mp there
        · exact absurd rfl begun
        · exact older
      have going {stage : Stage} (runs : stage.runs = true) : stage ≠ .locking := by
        rintro rfl
        cases runs
      refine ⟨?_, ?_, ?_, ?_, inv.once, inv.recorded, ?_, ?_, inv.sound⟩
      · intro row mem at' own
        obtain ⟨owner, there, inserted⟩ := inv.open' row mem at' own
        exact ⟨owner, Slots.concat_iff.mpr (.inr there), inserted⟩
      · intro at' other there inserted
        exact inv.own at' other (older there (by rw [inserted]; nofun)) inserted
      · intro at' other there running
        exact inv.behind at' other (older there (going running)) running
      · intro i j first second foundFirst foundSecond runsFirst runsSecond
        exact inv.alone i j first second (older foundFirst (going runsFirst)) (older foundSecond (going runsSecond)) runsFirst runsSecond
      · intro at' other there running
        exact inv.running at' other (older there (going running)) running
      · intro other mem callback
        obtain inside | new := mem_append.mp mem
        · exact inv.callbacks other inside callback
        · obtain rfl := mem_singleton.mp new
          exact ⟨nofun, nofun⟩
    · cases stepped
      exact inv
  | advance index =>
    obtain ⟨delivery, found, advanced⟩ := bind_eq_some_iff.mp stepped
    exact inv.advance found advanced
  | answer index owner =>
    obtain ⟨delivery, found, answered⟩ := bind_eq_some_iff.mp stepped
    exact inv.answer found answered
  | process index succeeded =>
    obtain ⟨delivery, found, processed⟩ := bind_eq_some_iff.mp stepped
    exact inv.process found processed
  | fail index =>
    obtain ⟨delivery, found, failed⟩ := bind_eq_some_iff.mp stepped
    exact inv.fail found failed
  | loseCommit index =>
    obtain ⟨delivery, found, lost⟩ := bind_eq_some_iff.mp stepped
    unfold State.loseCommit at lost
    split at lost
    · next inserted =>
      cases lost
      exact (inv.commit found inserted).2
    · cases lost
  | request request called =>
    simp only [Channels.step] at stepped
    split at stepped
    · cases stepped
      exact inv.beside _ s.now (inv.sound.request request called)
    · cases stepped
  | reply id app owner response =>
    cases stepped
    exact inv.beside _ s.now (inv.sound.consume s.now id app owner response)
  | cancel id reason =>
    cases stepped
    exact inv.beside _ s.now (inv.sound.cancel id reason)
  | dropWaiter tx =>
    cases stepped
    exact inv.beside _ s.now (inv.sound.dropWaiter tx)
  | restart =>
    cases stepped
    exact inv.beside _ s.now inv.sound.restart

/-! ## Runs -/

/-- Nothing is under way; there may be receipts. -/
structure State.Start (s : State) : Prop where
  committed : ∀ row ∈ s.receipts.rows, row.tx = none
  idle : s.deliveries = [] ∧ s.processed = []
  quiet : s.approvals.pending = [] ∧ s.approvals.waiters = []

theorem State.Start.inv (start : s.Start) : Inv s := by
  obtain ⟨committed, ⟨deliveries, processed⟩, ⟨pending, waiters⟩⟩ := start
  have sound : s.approvals.Sound := by
    refine ⟨?_, ?_, ?_, ?_⟩
    · simp [pending]
    · simp [pending]
    · simp [pending]
    · simp [waiters]
  refine ⟨?_, ?_, ?_, ?_, ?_, ?_, ?_, ?_, sound⟩
  · exact fun row mem index own => nomatch (committed row mem).symm.trans own
  · simp [deliveries]
  · simp [deliveries]
  · simp [deliveries]
  · simp [processed]
  · simp [processed]
  · simp [deliveries]
  · simp [deliveries]

/-- A callback that nothing of its own is in the way of: no receipt, and no admission under
    its lock. -/
def State.Passes (parseUuid : Text → Option Text) (hash : Text → Int) (s : State) : Prop :=
  ∀ request intake, webhook parseUuid request = .ok (some intake) → intake.isMessage = false →
    (∀ row ∈ s.receipts.rows, row.key ≠ intake.key) → s.lockTaken hash intake = false →
      let index := s.deliveries.length
      ∃ last, Runs.run (step parseUuid hash) s
          [.deliver request, .advance index, .advance index, .advance index, .advance index] = some last ∧
        last.deliveries[index]? = some ⟨intake, .processing⟩

/-- What the intake and the pending approvals promise. -/
structure State.Upheld (parseUuid : Text → Option Text) (hash : Text → Int) (s : State) : Prop where
  processedOnce : s.processed.Nodup
  oneMessage : ∀ (index other : Nat) (delivery delivery' : Delivery), s.deliveries[index]? = some delivery →
    s.deliveries[other]? = some delivery' → delivery.stage.runs = true → delivery'.stage.runs = true →
      delivery.intake.isMessage = true → delivery'.intake.isMessage = true →
        delivery.intake.channel = delivery'.intake.channel → delivery.intake.chat = delivery'.intake.chat → index = other
  neverBusy : ∀ delivery ∈ s.deliveries, delivery.intake.isMessage = false → delivery.stage ≠ .ended .busy
  passes : s.Passes parseUuid hash
  answers : ∀ waiter ∈ s.approvals.waiters, waiter.Bound
  strangers : ∀ now id app owner response, (∀ entry ∈ s.approvals.get id, entry.request.owner ≠ owner) →
    s.approvals.consume now id app owner response = (false, s.approvals.lapse now id) ∧
      ((∀ entry ∈ s.approvals.get id, now < entry.expiresAt) → s.approvals.lapse now id = s.approvals)
  concealed : ∀ now id app owner response,
    (s.approvals.consume now id app owner response).1 = ((s.approvals.ofOwner owner).consume now id app owner response).1
  unlisted : ∀ now app owner, s.approvals.list now app owner = (s.approvals.ofOwner owner).list now app owner

theorem advance_of (there : s.deliveries[index]? = some delivery) :
    step parseUuid hash s (.advance index) = s.advance hash index delivery := by
  simp [step, there]

theorem Inv.passes (inv : Inv s) : s.Passes parseUuid hash := by
  intro request intake admissible callback unseen free index
  -- the states of the delivery up to its commit, none of which another one is changed in
  let arrived : State := { s with deliveries := s.deliveries ++ [⟨intake, .locking⟩] }
  let locked := arrived.setStage index ⟨intake, .locking⟩ .locked
  let clear := locked.setStage index ⟨intake, .locked⟩ .clear
  have foundArrived : arrived.deliveries[index]? = some ⟨intake, .locking⟩ := getElem?_concat_length
  have foundLocked : locked.deliveries[index]? = some ⟨intake, .locked⟩ := Slots.set_self foundArrived
  have foundClear : clear.deliveries[index]? = some ⟨intake, .clear⟩ := Slots.set_self foundLocked
  have deliver : Channels.step parseUuid hash s (.deliver request) = some arrived := by
    simp only [Channels.step, admissible]
    rfl
  have lock : Channels.step parseUuid hash arrived (.advance index) = some locked := by
    have open' : arrived.lockTaken hash intake = false := by
      unfold State.lockTaken at free ⊢
      rw [any_append, free]
      rfl
    rw [advance_of foundArrived]
    exact if_neg (by rw [open']; exact Bool.false_ne_true)
  have look : Channels.step parseUuid hash locked (.advance index) = some clear := by
    have nothing : locked.receipts.statusOf intake.channel intake.delivery = none := by
      apply map_eq_none_iff.mpr
      apply find?_eq_none.mpr
      intro row mem same
      exact unseen row (mem_of_mem_filter mem) (of_decide_eq_true same)
    rw [advance_of foundLocked]
    simp only [State.advance, nothing, callback]
    rfl
  have absent {row : Receipt} (mem : row ∈ clear.receipts.rows) : (intake.row (some index)).conflicts row = false := by
    have differs : ¬row.key = (intake.row (some index)).key := unseen row mem
    simp [Receipt.conflicts, differs, Intake.row_running, callback]
  have free' : clear.receipts.rows.any (intake.row (some index)).conflicts = false :=
    any_eq_false.mpr fun row mem => by rw [absent mem]; exact Bool.false_ne_true
  let inserted : State :=
    { clear.setStage index ⟨intake, .clear⟩ (.inserted true) with
      receipts := clear.receipts.insert (intake.row (some index)) free' }
  have foundInserted : inserted.deliveries[index]? = some ⟨intake, .inserted true⟩ := Slots.set_self foundClear
  have insert : Channels.step parseUuid hash clear (.advance index) = some inserted := by
    have alone : clear.receipts.rows.any (fun other => other.tx.isSome && (intake.row (some index)).conflicts other) = false := by
      apply any_eq_false.mpr
      intro row mem
      simp [absent mem]
    rw [advance_of foundClear]
    simp only [State.advance, alone]
    exact dif_pos free'
  let committed : State :=
    { inserted.setStage index ⟨intake, .inserted true⟩ .processing with
      receipts := inserted.receipts.commit index
      processed := inserted.processed ++ [intake.key] }
  refine ⟨committed, ?_, Slots.set_self foundInserted⟩
  rw [Runs.run, deliver, bind_some, Runs.run, lock, bind_some, Runs.run, look, bind_some, Runs.run, insert,
    bind_some, Runs.run, advance_of foundInserted]
  rfl

theorem Inv.oneMessage (inv : Inv s) {other : Nat} {delivery' : Delivery}
    (found : s.deliveries[index]? = some delivery) (found' : s.deliveries[other]? = some delivery')
    (runs : delivery.stage.runs = true) (runs' : delivery'.stage.runs = true)
    (message : delivery.intake.isMessage = true) (message' : delivery'.intake.isMessage = true)
    (channel : delivery.intake.channel = delivery'.intake.channel)
    (chat : delivery.intake.chat = delivery'.intake.chat) : index = other := by
  have same : delivery.intake.row none = delivery'.intake.row none := by
    apply s.receipts.eq_of_conversation (inv.behind index delivery found runs) (inv.behind other delivery' found' runs')
    · rw [Intake.row_running, message]
    · rw [Intake.row_running, message']
    · simp only [Receipt.conversation, Intake.row, channel, chat]
  exact inv.alone index other delivery delivery' found found' runs runs' (congrArg Receipt.key same)

theorem Inv.upheld (inv : Inv s) : s.Upheld parseUuid hash where
  processedOnce := inv.once
  oneMessage _ _ _ _ found found' runs runs' message message' channel chat :=
    inv.oneMessage found found' runs runs' message message' channel chat
  neverBusy delivery mem callback := (inv.callbacks delivery mem callback).2
  passes := inv.passes
  answers := inv.sound.waiters
  strangers now id app owner response stranger := by
    refine ⟨PendingApprovals.consume_stranger stranger, fun early => ?_⟩
    unfold PendingApprovals.lapse
    cases found : s.approvals.get id with
    | none => rfl
    | some entry => exact if_neg (Nat.not_le_of_lt (early entry found))
  concealed := inv.sound.consume_ofOwner
  unlisted := s.approvals.list_ofOwner

theorem intake_upheld (parseUuid : Text → Option Text) (hash : Text → Int) {s last : State} {actions : List Action}
    (start : s.Start) (ran : Runs.run (step parseUuid hash) s actions = some last) : last.Upheld parseUuid hash := by
  have inv : Inv last := Runs.run_invariant (fun inv stepped => Inv.step inv stepped) start.inv ran
  exact inv.upheld

/-! Ann's chat: a message, a confirmation while it runs, and the message once more. -/

def quiet : State := ⟨⟨[], by simp, by simp⟩, [], [], ⟨[], []⟩, 0⟩

theorem quiet_start : quiet.Start := ⟨nofun, ⟨rfl, rfl⟩, ⟨rfl, rfl⟩⟩

def ann : ApprovalOwner := ⟨1, some "chat"⟩

def confirmation : ApprovalRequest := ⟨ann, "a1", "assistant", [], [], [], "mutate_data", [], [], []⟩

def inbound (event : InboundEvent) (delivery : String) : Request :=
  ⟨"c", some (true, false), true, .ok event, some 1, true, .ok delivery.toList⟩

def admitted (index : Nat) : List Action := [.advance index, .advance index, .advance index, .advance index]

def conversation : List Action :=
  [Action.deliver (inbound (.message "chat" "hello") "d1")] ++ Action.advance 0 :: admitted 0 ++
    [Action.request confirmation 0, .deliver (inbound (.callback "chat" [] "approve:a1") "d2")] ++ admitted 1 ++
    [Action.answer 1 (some ann), .deliver (inbound (.message "chat" "hello") "d1"), .advance 2, .advance 2]

theorem conversation_upheld : ∃ last, Runs.run (step some fun _ => 0) quiet conversation = some last ∧
    last.deliveries.map (·.stage) = [.processing, .replied, .ended (.duplicate PROCESSING)] ∧
    last.approvals.waiters.map (·.received) = [[⟨.approved, some (ann, 0)⟩]] ∧ last.Upheld some fun _ => 0 := by
  have read : (Runs.run (step some fun _ => 0) quiet conversation).map (fun last =>
      (last.deliveries.map (·.stage), last.approvals.waiters.map (·.received))) =
        some ([.processing, .replied, .ended (.duplicate PROCESSING)], [[⟨.approved, some (ann, 0)⟩]]) := by decide +kernel
  obtain ⟨last, ran, shown⟩ := Option.map_eq_some_iff.mp read
  obtain ⟨stages, received⟩ := Prod.mk.inj shown
  exact ⟨last, ran, stages, received, intake_upheld _ _ quiet_start ran⟩

/-- Once Ann's request has expired, a reply of Bob takes it out of the table and rejects
    it. -/
theorem stranger_rejects : ∃ last, Runs.run (step some fun _ => 0) quiet [.request confirmation 0, .tick APPROVAL_TIMEOUT] = some last ∧
    last.approvals.pending.map (·.request.owner) = [ann] ∧
    (last.approvals.reply last.now "a1".toList ⟨2, none⟩ .approved).2 ≠ last.approvals := by
  have read : (Runs.run (step some fun _ => 0) quiet [.request confirmation 0, .tick APPROVAL_TIMEOUT]).map (fun last =>
      (last.approvals.pending.map (·.request.owner),
        decide ((last.approvals.reply last.now "a1".toList ⟨2, none⟩ .approved).2 = last.approvals))) =
      some ([ann], false) := by decide +kernel
  obtain ⟨last, ran, shown⟩ := Option.map_eq_some_iff.mp read
  obtain ⟨owners, differs⟩ := Prod.mk.inj shown
  exact ⟨last, ran, owners, of_decide_eq_false differs⟩

end RootCx.Channels
