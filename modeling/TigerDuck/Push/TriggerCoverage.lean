import TigerDuck.Push.SyncTriggers

/-!
# No change without its trigger

Every change a run commits has left a trigger that goes out after it, unless its call lost all
its rounds. The invariant is one of each open transaction, about the rows it holds, and one of
what is committed; a step keeps the first for every other transaction because it leaves the rows
alone that the transaction holds (`Frame`).

## Main results

- `change_leaves_trigger`: what a committed call leaves behind.
-/

namespace TigerDuck.Push

open Relational Transition

namespace PushJob

/-- A trigger's row. -/
structure IsTrigger (job : PushJob) : Prop where
  scenario : job.scenario = .syncTrigger
  channel : job.channel = .system
  deviceId : job.deviceId = none

/-- A job that has yet to go out. -/
structure Waits (job : PushJob) : Prop where
  status : job.status = .pending
  deliveries : job.hasDeliveries = false

/-- A job some round of which has been committed. -/
def WentOut (job : PushJob) : Prop := job.hasDeliveries = true ∨ job.status = .failed

theorem Waits.not_wentOut {job : PushJob} (h : job.Waits) : ¬ job.WentOut := by
  rintro (hsome | hfailed)
  · rw [h.deliveries] at hsome
    cases hsome
  · rw [h.status] at hfailed
    cases hfailed

/-- A row that says the same of what is sent and to whom. -/
structure Carries (job job' : PushJob) : Prop where
  scenario : job'.scenario = job.scenario
  channel : job'.channel = job.channel
  deviceId : job'.deviceId = job.deviceId
  payload : job'.payload = job.payload

variable {cfg : Settings} {job job' job'' : PushJob} {now : Time} {round : Round}

theorem Carries.trans (h : job.Carries job') (h' : job'.Carries job'') : job.Carries job'' where
  scenario := h'.scenario.trans h.scenario
  channel := h'.channel.trans h.channel
  deviceId := h'.deviceId.trans h.deviceId
  payload := h'.payload.trans h.payload

theorem Carries.isTrigger (h : job.Carries job') (htrigger : job.IsTrigger) : job'.IsTrigger where
  scenario := h.scenario.trans htrigger.scenario
  channel := h.channel.trans htrigger.channel
  deviceId := h.deviceId.trans htrigger.deviceId

/-- A job that waits, is going out, or has used up its attempts. -/
def Unsettled (job : PushJob) : Prop :=
  job.status = .pending ∨ job.status = .processing ∨ job.status = .failed

/-- A job the pipeline hands back, or gives up, with the deliveries it had. -/
structure GivesBack (job job' : PushJob) : Prop extends job.Carries job' where
  deliveries : job'.deliveries = job.deliveries
  status : job'.Unsettled

theorem claim_givesBack (job : PushJob) (workerId : String) (now : Time) :
    job.GivesBack (job.claim workerId now) :=
  ⟨⟨rfl, rfl, rfl, rfl⟩, rfl, .inr (.inl rfl)⟩

theorem release_givesBack (job : PushJob) : job.GivesBack job.release :=
  ⟨⟨rfl, rfl, rfl, rfl⟩, rfl, .inl rfl⟩

theorem putBack_givesBack (job : PushJob) (availableAt : Time) :
    job.GivesBack (job.putBack availableAt) :=
  ⟨⟨rfl, rfl, rfl, rfl⟩, rfl, .inl rfl⟩

theorem recoverStale_givesBack (cfg : Settings) (job : PushJob) (now : Time) :
    job.GivesBack (job.recoverStale cfg now) := by
  unfold recoverStale
  dsimp only
  split
  · exact ⟨⟨rfl, rfl, rfl, rfl⟩, rfl, .inr (.inr rfl)⟩
  · exact ⟨⟨rfl, rfl, rfl, rfl⟩, rfl, .inl rfl⟩

theorem crash_givesBack (cfg : Settings) (job : PushJob) (now : Time) :
    job.GivesBack (job.crash cfg now) := by
  unfold crash
  dsimp only
  split
  · exact ⟨⟨rfl, rfl, rfl, rfl⟩, rfl, .inr (.inr rfl)⟩
  · exact ⟨⟨rfl, rfl, rfl, rfl⟩, rfl, .inl rfl⟩

/-! ### The round of a trigger -/

theorem aggregate_carries (ds : List PushDelivery) : job.Carries (job.aggregate now ds) := by
  unfold aggregate
  dsimp only
  split
  · exact ⟨rfl, rfl, rfl, rfl⟩
  · split <;> exact ⟨rfl, rfl, rfl, rfl⟩

theorem deliverRound_carries (cfg : Settings) (job : PushJob) (now : Time) (round : Round) :
    job.Carries (job.deliverRound cfg now round) := by
  unfold deliverRound
  split
  · exact ⟨rfl, rfl, rfl, rfl⟩
  dsimp only
  split
  · split
    · exact ⟨rfl, rfl, rfl, rfl⟩
    · split
      · exact ⟨rfl, rfl, rfl, rfl⟩
      · exact aggregate_carries _
  · exact aggregate_carries _

/-- A job with a delivery still has it after a round, and one without has failed. -/
theorem deliverRound_wentOut (cfg : Settings) (job : PushJob) (now : Time) (round : Round) :
    (job.deliverRound cfg now round).WentOut := by
  by_cases hnil : job.deliveries = []
  · right
    rw [deliverRound, if_pos hnil]
    rfl
  · left
    obtain ⟨f, _, hmap⟩ := deliverRound_map cfg job now round
    rw [hasDeliveries, hmap, Bool.not_eq_true', List.isEmpty_eq_false_iff, ne_eq,
      List.map_eq_nil_iff]
    exact hnil

/-- Every row gets a delivery, or has one. -/
theorem exists_mem_insertDeliveries {rows : List TokenRow} {row : TokenRow} (hrow : row ∈ rows) :
    ∃ d ∈ (job.insertDeliveries now rows).deliveries, d.token = row.token := by
  unfold insertDeliveries
  dsimp only
  generalize job.deliveries = ds
  induction rows generalizing ds with
  | nil => cases hrow
  | cons first rest ih =>
    rw [List.foldl_cons]
    rcases List.mem_cons.mp hrow with rfl | hrest
    · -- The other rows keep the delivery this one has now.
      have hevolve := insertDeliveries_evolve { job with
        deliveries := if ds.any fun d => d.token = row.token then ds
          else ds ++ [newDelivery now row] } now rest
      obtain ⟨d, hd, htoken⟩ : ∃ d ∈ (if ds.any fun d => d.token = row.token then ds
          else ds ++ [newDelivery now row]), d.token = row.token := by
        split
        next hany =>
          obtain ⟨d, hd, htoken⟩ := List.any_eq_true.mp hany
          exact ⟨d, hd, of_decide_eq_true htoken⟩
        next => exact ⟨newDelivery now row, by simp, rfl⟩
      obtain ⟨d', hd', hfollows⟩ := hevolve.kept d hd
      exact ⟨d', hd', hfollows.token.trans htoken⟩
    · exact ih hrest _

/-- Only the pacing holds a trigger back. -/
theorem materialize_trigger (h : job.IsTrigger) (cfg : Settings) (now : Time) (round : Round) :
    job.materialize cfg now round =
      match job.holdSyncTrigger round with
      | some held => (held, false)
      | none => (job.insertDeliveries now (job.recipients round), true) := by
  have hreauth : job.holdSessionReauth now round = none := by
    simp [holdSessionReauth, isSessionReauth, h.scenario]
  have hactivity : job.holdActivity now round = none := by simp [holdActivity, h.channel]
  have hcourse : job.holdCourse now round = none := by simp [holdCourse, h.channel]
  have hfirst : job.firstRound round = false := by simp [firstRound, h.channel]
  have hcountdown : job.holdForCountdown cfg now round = none := by
    simp [holdForCountdown, hfirst]
  have hfile : job.fileDeliveries now round =
      (job.insertDeliveries now (job.recipients round), true) := by
    unfold fileDeliveries
    split
    next hnone =>
      rw [hfirst, Bool.false_and, if_neg Bool.false_ne_true, hnone]
      rfl
    next => rfl
  unfold materialize
  rw [if_neg (by simp [h.channel])]
  cases job.holdSyncTrigger round with
  | none => simp [hreauth, hactivity, hcourse, hcountdown, hfile]
  | some held => simp [hreauth, hactivity, hcourse]

/-- What `_process_job` makes of a trigger. -/
theorem process_trigger (h : job.IsTrigger) {workerId : String}
    (hclaimed : job.status = .processing ∧ job.lockedBy = some workerId) (cfg : Settings)
    (now : Time) (round : Round) :
    (job.process cfg workerId now none round).1 =
      if (job.materialize cfg now round).2 = true then
        (job.insertDeliveries now (job.recipients round)).deliverRound cfg now round
      else (job.materialize cfg now round).1 := by
  have hcheck : job.needsCheck = false := by
    unfold needsCheck
    rw [h.channel]
  unfold process
  rw [if_pos hclaimed, materialize_trigger h]
  simp only [hcheck, Bool.false_and, Bool.false_eq_true, if_false]
  cases job.holdSyncTrigger round <;> rfl

/-- A trigger that is held back is only put back. -/
theorem materialize_givesBack (h : job.IsTrigger)
    (hheld : (job.materialize cfg now round).2 = false) :
    job.GivesBack (job.materialize cfg now round).1 := by
  rw [materialize_trigger h] at hheld ⊢
  cases hpaced : job.holdSyncTrigger round with
  | none =>
    rw [hpaced] at hheld
    cases hheld
  | some held =>
    unfold holdSyncTrigger at hpaced
    split at hpaced
    · obtain ⟨last, _, rfl⟩ := Option.map_eq_some_iff.mp hpaced
      exact putBack_givesBack _ _
    · cases hpaced

end PushJob

namespace SyncTriggers

open PushJob

/-! ### The invariant -/

/-- What an open transaction that changes the user's data relies on. -/
structure Work.Sound (db : Db) (t : TxnId) (work : Work) : Prop where
  /-- It holds the rows it writes, which wait. -/
  writes : ∀ j job, work.writes.get j = some job →
    db.locks j = some t ∧ job.Waits ∧ job.IsTrigger ∧ j < db.nextJob ∧
      ∀ old, db.jobs.get j = some old → old.Waits
  /-- A call that has returned holds its trigger, and a claim of it is over. -/
  ended : ∀ e ∈ work.ended, ∀ j, e.trigger = some j →
    (∃ job, work.writes.get j = some job) ∧
      ∀ claim ∈ db.claims, claim.trigger = j → claim.step < e.step
  gaveUp : ∀ e ∈ work.ended, e.trigger = none → e.lost = MAX_ROUNDS
  /-- A device its row leaves out made every change that rides on it. -/
  sources : ∀ j job deviceId, work.writes.get j = some job →
    job.payload.sourceDeviceId = some deviceId →
      (∀ c ∈ db.changes, c.trigger = some j → c.sourceDeviceId = some deviceId) ∧
        ∀ e ∈ work.ended, e.trigger = some j → e.sourceDeviceId = some deviceId

/-- What an open claim relies on. -/
structure ClaimSound (db : Db) (t : TxnId) (j : JobId) (step : Nat) : Prop where
  held : db.locks j = some t
  row : ∃ job, db.jobs.get j = some job ∧ job.status = .pending
  begun : step < db.clock
  changes : ∀ c ∈ db.changes, c.trigger = some j → c.committedAt < step

def Txn.Sound (db : Db) (t : TxnId) : Txn → Prop
  | .enqueue work => work.Sound db t
  | .claim j _ _ step => ClaimSound db t j step

/-- The rows a transaction holds. -/
def Txn.Holds (j : JobId) : Txn → Prop
  | .enqueue work => ∃ job, work.writes.get j = some job
  | .claim k _ _ _ => k = j

/-- What holds of the committed rows and of what has happened. -/
structure Db.Committed (db : Db) : Prop where
  rows : db.jobs.Forall fun j job => j < db.nextJob ∧ job.IsTrigger
  claims : ∀ claim ∈ db.claims, claim.step < db.clock
  sendings : ∀ s ∈ db.sendings, ∃ job, db.jobs.get s.trigger = some job ∧ job.WentOut
  changes : ∀ c ∈ db.changes, c.committedAt < db.clock ∧
    (c.trigger = none → c.lost = MAX_ROUNDS) ∧
      ∀ j, c.trigger = some j → LeavesTrigger db UserDevice.TakesPush c j

structure Db.Sound (db : Db) : Prop where
  committed : db.Committed
  txns : ∀ t txn, db.txns t = some txn → txn.Sound db t

theorem Db.Sound.initial : Db.initial.Sound where
  committed :=
    { rows := Table.Forall.empty
      claims := fun _ h => (nomatch h)
      sendings := fun _ h => (nomatch h)
      changes := fun _ h => (nomatch h) }
  txns := fun _ _ h => (nomatch h)

/-! ### What a step leaves alone -/

/-- A step as an open transaction sees it that did not take it: the rows it holds are left
alone. -/
structure Frame (db db' : Db) (t : TxnId) (txn : Txn) : Prop where
  locks : ∀ j, txn.Holds j → db.locks j = some t → db'.locks j = some t
  rows : ∀ j, txn.Holds j → db'.jobs.get j = db.jobs.get j
  nextJob : db.nextJob ≤ db'.nextJob
  clock : db.clock ≤ db'.clock
  changes : ∀ c ∈ db'.changes, c ∈ db.changes ∨ ∀ j, c.trigger = some j → ¬ txn.Holds j
  claims : ∀ claim ∈ db'.claims, claim ∈ db.claims ∨ ¬ txn.Holds claim.trigger

variable {db db' : Db} {t : TxnId} {j : JobId} {job job' : PushJob}

theorem Work.Sound.frame {work : Work} (h : work.Sound db t)
    (hframe : Frame db db' t (.enqueue work)) : work.Sound db' t where
  writes := fun j job hjob => by
    obtain ⟨hheld, hwaits, htrigger, hbelow, hold⟩ := h.writes j job hjob
    have hrow := hframe.rows j ⟨job, hjob⟩
    exact ⟨hframe.locks j ⟨job, hjob⟩ hheld, hwaits, htrigger,
      Nat.lt_of_lt_of_le hbelow hframe.nextJob, fun old hget => hold old (hrow ▸ hget)⟩
  ended := fun e he j hj => by
    obtain ⟨hholds, hclaims⟩ := h.ended e he j hj
    refine ⟨hholds, fun claim hclaim htrigger => ?_⟩
    rcases hframe.claims claim hclaim with hold | hfree
    · exact hclaims claim hold htrigger
    · exact absurd (htrigger ▸ hholds) hfree
  gaveUp := h.gaveUp
  sources := fun j job deviceId hjob hsource => by
    obtain ⟨hchanges, hended⟩ := h.sources j job deviceId hjob hsource
    refine ⟨fun c hc htrigger => ?_, hended⟩
    rcases hframe.changes c hc with hold | hfree
    · exact hchanges c hold htrigger
    · exact absurd ⟨job, hjob⟩ (hfree j htrigger)

theorem ClaimSound.frame {workerId : String} {now : Time} {step : Nat} (h : ClaimSound db t j step)
    (hframe : Frame db db' t (.claim j workerId now step)) : ClaimSound db' t j step where
  held := hframe.locks j rfl h.held
  row := by
    obtain ⟨job, hjob, hpending⟩ := h.row
    exact ⟨job, (hframe.rows j rfl).trans hjob, hpending⟩
  begun := Nat.lt_of_lt_of_le h.begun hframe.clock
  changes := fun c hc htrigger => by
    rcases hframe.changes c hc with hold | hfree
    · exact h.changes c hold htrigger
    · exact absurd rfl (hfree j htrigger)

theorem Txn.Sound.frame {txn : Txn} (h : txn.Sound db t) (hframe : Frame db db' t txn) :
    txn.Sound db' t := by
  cases txn with
  | enqueue work => exact Work.Sound.frame h hframe
  | claim j workerId now step => exact ClaimSound.frame h hframe

/-- A held row that is committed waits. -/
theorem Txn.Sound.pending {txn : Txn} (h : txn.Sound db t) (hholds : txn.Holds j)
    (hjob : db.jobs.get j = some job) : job.status = .pending := by
  cases txn with
  | enqueue work =>
    obtain ⟨row, hrow⟩ := hholds
    exact ((h.writes j row hrow).2.2.2.2 job hjob).status
  | claim k workerId now step =>
    obtain rfl : k = j := hholds
    obtain ⟨row, hrow, hpending⟩ := h.row
    rw [hjob] at hrow
    cases hrow
    exact hpending

theorem Txn.Sound.held {txn : Txn} (h : txn.Sound db t) (hholds : txn.Holds j) :
    db.locks j = some t := by
  cases txn with
  | enqueue work =>
    obtain ⟨row, hrow⟩ := hholds
    exact (h.writes j row hrow).1
  | claim k workerId now step =>
    obtain rfl : k = j := hholds
    exact h.held

/-- A held row's id has been given out. -/
theorem Txn.Sound.below {txn : Txn} (h : txn.Sound db t) (hcommitted : db.Committed)
    (hholds : txn.Holds j) : j < db.nextJob := by
  cases txn with
  | enqueue work =>
    obtain ⟨row, hrow⟩ := hholds
    exact (h.writes j row hrow).2.2.2.1
  | claim k workerId now step =>
    obtain rfl : k = j := hholds
    obtain ⟨row, hrow, _⟩ := h.row
    exact (hcommitted.rows k row hrow).1

/-- A step leaves alone what an open transaction relies on when it writes no row it holds. -/
theorem Frame.of_eq {txn : Txn}
    (hlocks : ∀ j, txn.Holds j → db.locks j = some t → db'.locks j = some t)
    (hjobs : db'.jobs = db.jobs) (hnext : db.nextJob ≤ db'.nextJob)
    (hclock : db.clock ≤ db'.clock) (hchanges : db'.changes = db.changes) (hclaims : db'.claims = db.claims) :
    Frame db db' t txn where
  locks := hlocks
  rows := fun j _ => by rw [hjobs]
  nextJob := hnext
  clock := hclock
  changes := fun c hc => .inl (hchanges ▸ hc)
  claims := fun claim hclaim => .inl (hclaims ▸ hclaim)

theorem Db.Sound.of_txns (h : db.Sound) (hcommitted : db'.Committed)
    (htxns : ∀ t txn, db'.txns t = some txn →
      txn.Sound db' t ∨ db.txns t = some txn ∧ Frame db db' t txn) : db'.Sound where
  committed := hcommitted
  txns := fun t txn htxn => by
    rcases htxns t txn htxn with hsound | ⟨hold, hframe⟩
    · exact hsound
    · exact (h.txns t txn hold).frame hframe

theorem LeavesTrigger.of_eq {takes : UserDevice → Prop} {c : Change}
    (h : LeavesTrigger db takes c j) (hjobs : db'.jobs = db.jobs) (hclaims : db'.claims = db.claims)
    (hsendings : db'.sendings = db.sendings) : LeavesTrigger db' takes c j where
  kept := by
    rw [hjobs, hsendings]
    exact h.kept
  claimed := hclaims ▸ h.claimed
  sent := hsendings ▸ h.sent
  audience := hsendings ▸ h.audience
  leavesOut := hjobs ▸ h.leavesOut

/-- The committed rows after a step that commits nothing. -/
theorem Db.Committed.of_eq (h : db.Committed) (hjobs : db'.jobs = db.jobs)
    (hnext : db.nextJob ≤ db'.nextJob) (hclock : db.clock ≤ db'.clock)
    (hchanges : db'.changes = db.changes) (hclaims : db'.claims = db.claims)
    (hsendings : db'.sendings = db.sendings) : db'.Committed where
  rows := by
    rw [hjobs]
    exact h.rows.mono fun j job hrow => ⟨Nat.lt_of_lt_of_le hrow.1 hnext, hrow.2⟩
  claims := fun claim hclaim => Nat.lt_of_lt_of_le (h.claims claim (hclaims ▸ hclaim)) hclock
  sendings := by
    rw [hjobs, hsendings]
    exact h.sendings
  changes := fun c hc => by
    obtain ⟨hbefore, hlost, hleaves⟩ := h.changes c (hchanges ▸ hc)
    exact ⟨Nat.lt_of_lt_of_le hbefore hclock, hlost,
      fun j hj => (hleaves j hj).of_eq hjobs hclaims hsendings⟩

/-! ### The statements of a call -/

variable {work : Work} {call : Call}

theorem Work.Sound.empty (db : Db) (t : TxnId) : Work.empty.Sound db t where
  writes := fun _ _ h => (nomatch h)
  ended := fun _ h => (nomatch h)
  gaveUp := fun _ h => (nomatch h)
  sources := fun _ _ _ h => (nomatch h)

/-- The call under way is nothing the other transactions see. -/
theorem Work.Sound.setCall (h : work.Sound db t) (call : Option Call) :
    { work with call }.Sound db t :=
  ⟨h.writes, h.ended, h.gaveUp, h.sources⟩

/-- A call that gives up leaves nothing. -/
theorem Work.Sound.giveUp (h : work.Sound db t) (hlost : call.lost = MAX_ROUNDS) (step : Nat) :
    (work.endCall call none step).Sound db t where
  writes := h.writes
  ended := fun e he j hj => by
    rcases List.mem_append.mp he with he | he
    · exact h.ended e he j hj
    · rw [List.mem_singleton.mp he] at hj
      cases hj
  gaveUp := fun e he hnone => by
    rcases List.mem_append.mp he with he | he
    · exact h.gaveUp e he hnone
    · rw [List.mem_singleton.mp he]
      exact hlost
  sources := fun j job deviceId hjob hsource => by
    obtain ⟨hchanges, hended⟩ := h.sources j job deviceId hjob hsource
    refine ⟨hchanges, fun e he hj => ?_⟩
    rcases List.mem_append.mp he with he | he
    · exact hended e he hj
    · rw [List.mem_singleton.mp he] at hj
      cases hj

/-- A call that rides on a trigger, or files one, holds it from then on. -/
theorem Work.Sound.leave (h : work.Sound db t) (hheld : db.locks j = some t) (hwaits : job.Waits)
    (htrigger : job.IsTrigger) (hbelow : j < db.nextJob)
    (hold : ∀ old, db.jobs.get j = some old → old.Waits) {step : Nat}
    (hclaims : ∀ claim ∈ db.claims, claim.step < step)
    (hsources : ∀ deviceId, job.payload.sourceDeviceId = some deviceId →
      call.sourceDeviceId = some deviceId ∧
        (∀ c ∈ db.changes, c.trigger = some j → c.sourceDeviceId = some deviceId) ∧
          ∀ e ∈ work.ended, e.trigger = some j → e.sourceDeviceId = some deviceId) :
    ((work.write j job).endCall call (some j) step).Sound db t where
  writes := fun k row hrow => by
    simp only [Work.endCall, Work.write, Table.get_set] at hrow
    split at hrow
    next hk =>
      subst hk
      cases hrow
      exact ⟨hheld, hwaits, htrigger, hbelow, hold⟩
    next => exact h.writes k row hrow
  ended := fun e he k hk => by
    have hwrites (row : PushJob) (hrow : work.writes.get k = some row) :
        ∃ row, (work.writes.set j job).get k = some row := by
      rw [Table.get_set]
      split
      · exact ⟨job, rfl⟩
      · exact ⟨row, hrow⟩
    rcases List.mem_append.mp he with he | he
    · obtain ⟨⟨row, hrow⟩, hended⟩ := h.ended e he k hk
      exact ⟨hwrites row hrow, hended⟩
    · rw [List.mem_singleton.mp he] at hk ⊢
      cases hk
      refine ⟨⟨job, ?_⟩, fun claim hclaim _ => hclaims claim hclaim⟩
      simp [Work.endCall, Work.write]
  gaveUp := fun e he hnone => by
    rcases List.mem_append.mp he with he | he
    · exact h.gaveUp e he hnone
    · rw [List.mem_singleton.mp he] at hnone
      cases hnone
  sources := fun k row deviceId hrow hsource => by
    simp only [Work.endCall, Work.write, Table.get_set] at hrow
    split at hrow
    next hk =>
      subst hk
      cases hrow
      obtain ⟨hcall, hchanges, hended⟩ := hsources deviceId hsource
      refine ⟨hchanges, fun e he hk => ?_⟩
      rcases List.mem_append.mp he with he | he
      · exact hended e he hk
      · rw [List.mem_singleton.mp he]
        exact hcall
    next hk =>
      obtain ⟨hchanges, hended⟩ := h.sources k row deviceId hrow hsource
      refine ⟨hchanges, fun e he htrigger => ?_⟩
      rcases List.mem_append.mp he with he | he
      · exact hended e he htrigger
      · rw [List.mem_singleton.mp he] at htrigger
        exact absurd (Option.some.inj htrigger).symm hk

/-- A statement that locks, writes and commits nothing. -/
theorem Db.Sound.setWork (h : db.Sound) (hwork : work.Sound db t) :
    { db.setWork t work with clock := db.clock + 1 }.Sound := by
  refine h.of_txns (h.committed.of_eq rfl (Nat.le_refl _) (Nat.le_succ _) rfl rfl rfl)
    fun t' txn htxn => ?_
  have hframe (txn : Txn) : Frame db { db.setWork t work with clock := db.clock + 1 } t' txn :=
    .of_eq (fun _ _ hheld => hheld) rfl (Nat.le_refl _) (Nat.le_succ _) rfl rfl
  rcases update_cases htxn with ⟨rfl, hnew⟩ | ⟨_, hold⟩
  · cases hnew
    exact .inl (hwork.frame (hframe _))
  · exact .inr ⟨hold, hframe txn⟩

/-- A statement by which a call leaves its change on the trigger `j`. -/
theorem Db.Sound.leave (h : db.Sound) (hwork : work.Sound db t)
    (hfree : ∀ t' txn, db.txns t' = some txn → txn.Holds j → t' = t)
    {nextJob : JobId} (hnext : db.nextJob ≤ nextJob) (keys : RowLocks DedupeKey TxnId)
    (hwaits : job.Waits) (htrigger : job.IsTrigger) (hbelow : j < nextJob)
    (hold : ∀ old, db.jobs.get j = some old → old.Waits)
    (hsources : ∀ deviceId, job.payload.sourceDeviceId = some deviceId →
      call.sourceDeviceId = some deviceId ∧
        (∀ c ∈ db.changes, c.trigger = some j → c.sourceDeviceId = some deviceId) ∧
          ∀ e ∈ work.ended, e.trigger = some j → e.sourceDeviceId = some deviceId) :
    { { db with nextJob, locks := db.locks.lock t j, keys }.setWork t
        ((work.write j job).endCall call (some j) db.clock) with clock := db.clock + 1 }.Sound := by
  set db' : Db := { { db with nextJob, locks := db.locks.lock t j, keys }.setWork t
    ((work.write j job).endCall call (some j) db.clock) with clock := db.clock + 1 }
  have hframe (t' : TxnId) (txn : Txn) (hothers : t' = t ∨ ¬ txn.Holds j) :
      Frame db db' t' txn := by
    refine .of_eq (fun k hholds hheld => ?_) rfl hnext (Nat.le_succ _) rfl rfl
    change db.locks.lock t j k = some t'
    by_cases hk : k = j
    · subst hk
      rcases hothers with rfl | hnot
      · exact RowLocks.lock_self
      · exact absurd hholds hnot
    · rw [RowLocks.lock, Function.update_of_ne hk, hheld]
  refine h.of_txns (h.committed.of_eq rfl hnext (Nat.le_succ _) rfl rfl rfl) fun t' txn htxn => ?_
  rcases update_cases htxn with ⟨rfl, hnew⟩ | ⟨hne, htxn⟩
  · cases hnew
    exact .inl ((hwork.frame (hframe t' _ (.inl rfl))).leave RowLocks.lock_self hwaits htrigger
      hbelow hold h.committed.claims hsources)
  · exact .inr ⟨htxn, hframe t' txn (.inr fun hholds => hne (hfree t' txn htxn hholds))⟩

theorem Db.get_seen (db : Db) (work : Work) (j : JobId) :
    (db.seen work).get j = (work.writes.get j).or (db.jobs.get j) := by
  rw [seen, Table.get_overwriteFrom]
  cases work.writes.get j <;> rfl

/-- What `calling` finds. -/
theorem Db.Sound.calling (h : db.Sound) {stage : Stage}
    (hcall : db.calling t stage = some (work, call)) : work.Sound db t := by
  unfold Db.calling at hcall
  split at hcall
  next work' hwork =>
    obtain ⟨call', _, hstage⟩ := Option.bind_eq_some_iff.mp hcall
    split at hstage <;> cases hstage
    exact h.txns t _ hwork
  next => cases hcall

theorem rideRow_waits (sourceDeviceId : Option DeviceId) (h : job.Waits) :
    (Db.rideRow sourceDeviceId job).Waits := by
  unfold Db.rideRow
  split
  · exact ⟨h.status, h.deliveries⟩
  · exact h

theorem rideRow_isTrigger (sourceDeviceId : Option DeviceId) (h : job.IsTrigger) :
    (Db.rideRow sourceDeviceId job).IsTrigger := by
  unfold Db.rideRow
  split
  · exact ⟨h.scenario, h.channel, h.deviceId⟩
  · exact h

/-- A trigger leaves a device out after a ride only if it did before and the device rides. -/
theorem rideRow_source {sourceDeviceId : Option DeviceId} {deviceId : DeviceId} (h : job.Waits)
    (hsource : (Db.rideRow sourceDeviceId job).payload.sourceDeviceId = some deviceId) :
    sourceDeviceId = some deviceId ∧ job.payload.sourceDeviceId = some deviceId := by
  unfold Db.rideRow at hsource
  split at hsource
  next => cases hsource
  next hsame =>
    have heq : job.payload.sourceDeviceId = sourceDeviceId :=
      not_not.mp fun hne => hsame ⟨h.status, h.deliveries, hne⟩
    exact ⟨heq ▸ hsource, hsource⟩

/-- Who made the changes on a trigger the transaction sees. -/
theorem Db.Sound.sources (h : db.Sound) (hwork : work.Sound db t)
    (hjob : (db.seen work).get j = some job) {deviceId : DeviceId}
    (hsource : job.payload.sourceDeviceId = some deviceId) :
    (∀ c ∈ db.changes, c.trigger = some j → c.sourceDeviceId = some deviceId) ∧
      ∀ e ∈ work.ended, e.trigger = some j → e.sourceDeviceId = some deviceId := by
  rw [Db.get_seen, Option.or_eq_some_iff] at hjob
  rcases hjob with hown | ⟨hnone, hcommitted⟩
  · exact hwork.sources j job deviceId hown hsource
  · refine ⟨fun c hc htrigger => ?_, fun e he htrigger => ?_⟩
    · exact ((h.committed.changes c hc).2.2 j htrigger).leavesOut job deviceId hcommitted hsource
    · obtain ⟨⟨row, hrow⟩, _⟩ := hwork.ended e he j htrigger
      rw [hnone] at hrow
      cases hrow

theorem Db.Sound.ride (h : db.Sound) (hwork : work.Sound db t) :
    { db.ride t work call with clock := db.clock + 1 }.Sound := by
  unfold Db.ride
  split
  next j job hrow =>
    obtain ⟨latest, _, hrow⟩ := Option.bind_eq_some_iff.mp hrow
    obtain ⟨row, hseen, hrow⟩ := Option.bind_eq_some_iff.mp hrow
    split at hrow
    next hfree =>
      obtain ⟨rfl, rfl⟩ := Prod.mk.inj (Option.some.inj hrow)
      have hwaits : row.Waits := ⟨hfree.1, hfree.2.1⟩
      have hcases := hseen
      rw [Db.get_seen, Option.or_eq_some_iff] at hcases
      -- The row is the transaction's own already, or a committed one.
      have hrow : row.IsTrigger ∧ latest.id < db.nextJob ∧
          ∀ old, db.jobs.get latest.id = some old → old.Waits := by
        rcases hcases with hown | ⟨_, hcommitted⟩
        · obtain ⟨_, _, htrigger, hbelow, hold⟩ := hwork.writes latest.id row hown
          exact ⟨htrigger, hbelow, hold⟩
        · obtain ⟨hbelow, htrigger⟩ := h.committed.rows latest.id row hcommitted
          refine ⟨htrigger, hbelow, fun old hold => ?_⟩
          rw [hcommitted] at hold
          cases hold
          exact hwaits
      have hothers (t' : TxnId) (txn : Txn) (htxn : db.txns t' = some txn)
          (hholds : txn.Holds latest.id) : t' = t := by
        have hheld := (h.txns t' txn htxn).held hholds
        rcases hfree.2.2 with hnone | hown
        · rw [hheld] at hnone
          cases hnone
        · rw [hheld] at hown
          exact Option.some.inj hown
      refine h.leave hwork hothers (Nat.le_refl _) db.keys (rideRow_waits _ hwaits)
        (rideRow_isTrigger _ hrow.1) hrow.2.1 hrow.2.2 fun deviceId hsource => ?_
      obtain ⟨hcall, hbefore⟩ := rideRow_source hwaits hsource
      exact ⟨hcall, h.sources hwork hseen hbefore⟩
    next => cases hrow
  next => exact h.setWork (hwork.setCall _)

theorem Db.Sound.file (h : db.Sound) (hwork : work.Sound db t) {me : UserId} {now : Time}
    (hfile : db.file me t work call now = some db') :
    { db' with clock := db.clock + 1 }.Sound := by
  unfold Db.file at hfile
  dsimp only at hfile
  split at hfile
  next =>
    split at hfile <;> cases hfile
    next => exact h.setWork (hwork.setCall _)
    next =>
      -- Nobody has seen the new id yet.
      have hfresh (job : PushJob) (hjob : db.jobs.get db.nextJob = some job) : False :=
        Nat.lt_irrefl _ (h.committed.rows db.nextJob job hjob).1
      have hunheld (t' : TxnId) (txn : Txn) (htxn : db.txns t' = some txn)
          (hholds : txn.Holds db.nextJob) : t' = t :=
        absurd ((h.txns t' txn htxn).below h.committed hholds) (Nat.lt_irrefl _)
      refine h.leave hwork hunheld (Nat.le_succ _) _ ⟨rfl, rfl⟩ ⟨rfl, rfl, rfl⟩
        (Nat.lt_succ_self _) (fun old hold => (hfresh old hold).elim) fun deviceId hsource => ?_
      refine ⟨hsource, fun c hc htrigger => ?_, fun e he htrigger => ?_⟩
      · obtain ⟨job, hjob, _⟩ := ((h.committed.changes c hc).2.2 _ htrigger).kept
        exact (hfresh job hjob).elim
      · obtain ⟨⟨row, hrow⟩, _⟩ := hwork.ended e he _ htrigger
        exact absurd (hwork.writes _ row hrow).2.2.2.1 (Nat.lt_irrefl _)
  next => cases hfile

theorem Db.Sound.reread (h : db.Sound) (hwork : work.Sound db t) {me : UserId} :
    { db.reread me t work call with clock := db.clock + 1 }.Sound := by
  unfold Db.reread
  dsimp only
  split
  next hlost => exact h.setWork (hwork.giveUp hlost _)
  next => exact h.setWork (hwork.setCall _)

/-! ### The end of a transaction -/

/-- The other transactions keep what they hold when one ends. -/
theorem Db.Sound.close (h : db.Sound) (t : TxnId) :
    { db.close t with clock := db.clock + 1 }.Sound := by
  refine h.of_txns (h.committed.of_eq rfl (Nat.le_refl _) (Nat.le_succ _) rfl rfl rfl)
    fun t' txn htxn => ?_
  rcases update_cases htxn with ⟨_, hnone⟩ | ⟨hne, htxn⟩
  · cases hnone
  · exact .inr ⟨htxn, .of_eq (fun _ _ hheld => RowLocks.release_of_held hheld hne) rfl
      (Nat.le_refl _) (Nat.le_succ _) rfl rfl⟩

/-- A trigger whose rounds are all to come is one for a change that a commit puts there now. -/
theorem LeavesTrigger.of_waits {takes : UserDevice → Prop} {c : Change}
    (hjob : db.jobs.get j = some job) (hwaits : job.Waits)
    (hclaims : ∀ claim ∈ db.claims, claim.trigger = j → claim.step < c.step)
    (hsendings : ∀ s ∈ db.sendings, s.trigger ≠ j)
    (hsource : ∀ deviceId, job.payload.sourceDeviceId = some deviceId →
      c.sourceDeviceId = some deviceId) : LeavesTrigger db takes c j where
  kept := ⟨job, hjob, .inl hwaits.status⟩
  claimed := fun claim hclaim htrigger => .inl (hclaims claim hclaim htrigger)
  sent := fun s hs htrigger => absurd htrigger (hsendings s hs)
  audience := fun s hs htrigger => absurd htrigger (hsendings s hs)
  leavesOut := fun row deviceId hrow hleft => by
    rw [hjob] at hrow
    cases hrow
    exact hsource deviceId hleft

theorem Db.Committed.commitWork (h : db.Committed) (hwork : work.Sound db t) :
    { db.commitWork t work with clock := db.clock + 1 }.Committed := by
  -- A row the transaction wrote had no round yet.
  have hunsent (j : JobId) (job : PushJob) (hjob : work.writes.get j = some job) (s : Sending)
      (hs : s ∈ db.sendings) : s.trigger ≠ j := by
    rintro rfl
    obtain ⟨row, hrow, hout⟩ := h.sendings s hs
    exact ((hwork.writes _ job hjob).2.2.2.2 row hrow).not_wentOut hout
  have hseen (j : JobId) (job : PushJob) (hjob : work.writes.get j = some job) :
      (db.seen work).get j = some job := by
    rw [Db.get_seen, hjob]
    rfl
  have hkept (j : JobId) (hnone : work.writes.get j = none) :
      (db.seen work).get j = db.jobs.get j := by
    rw [Db.get_seen, hnone]
    rfl
  constructor
  · intro j job hjob
    rcases hown : work.writes.get j with _ | row
    · exact h.rows j job ((hkept j hown).symm.trans hjob)
    · obtain rfl : row = job := Option.some.inj ((hseen j row hown).symm.trans hjob)
      obtain ⟨_, _, htrigger, hbelow, _⟩ := hwork.writes j row hown
      exact ⟨hbelow, htrigger⟩
  · exact fun claim hclaim => Nat.lt_succ_of_lt (h.claims claim hclaim)
  · intro s hs
    obtain ⟨row, hrow, hout⟩ := h.sendings s hs
    rcases hown : work.writes.get s.trigger with _ | job
    · exact ⟨row, (hkept _ hown).trans hrow, hout⟩
    · exact absurd rfl (hunsent _ job hown s hs)
  · intro c hc
    rcases List.mem_append.mp hc with hc | hc
    · obtain ⟨hbefore, hlost, hleaves⟩ := h.changes c hc
      refine ⟨Nat.lt_succ_of_lt hbefore, hlost, fun j hj => ?_⟩
      have hold := hleaves j hj
      rcases hown : work.writes.get j with _ | job
      · -- The trigger is as it was.
        refine { hold with kept := ?_, leavesOut := ?_ }
        · obtain ⟨job, hjob, hkeeps⟩ := hold.kept
          exact ⟨job, (hkept j hown).trans hjob, hkeeps⟩
        · exact fun job deviceId hjob =>
            hold.leavesOut job deviceId ((hkept j hown).symm.trans hjob)
      · -- The transaction rode on the trigger too.
        refine { hold with kept := ?_, leavesOut := ?_ }
        · exact ⟨job, hseen j job hown, .inl (hwork.writes j job hown).2.1.status⟩
        · intro row deviceId hrow hsource
          obtain rfl : job = row := Option.some.inj ((hseen j job hown).symm.trans hrow)
          exact (hwork.sources j job deviceId hown hsource).1 c hc hj
    · obtain ⟨e, he, rfl⟩ := List.mem_map.mp hc
      refine ⟨Nat.lt_succ_self _, hwork.gaveUp e he, fun j hj => ?_⟩
      obtain ⟨⟨job, hjob⟩, hclaims⟩ := hwork.ended e he j hj
      exact .of_waits (hseen j job hjob) (hwork.writes j job hjob).2.1 hclaims
        (hunsent j job hjob) fun deviceId hsource =>
          (hwork.sources j job deviceId hjob hsource).2 e he hj

theorem Db.Sound.commitWork (h : db.Sound) (htxn : db.txns t = some (.enqueue work)) :
    { db.commitWork t work with clock := db.clock + 1 }.Sound := by
  have hwork : work.Sound db t := h.txns t _ htxn
  refine h.of_txns (h.committed.commitWork hwork) fun t' txn htxn' => ?_
  rcases update_cases htxn' with ⟨_, hnone⟩ | ⟨hne, htxn'⟩
  · cases hnone
  have hsound := h.txns t' txn htxn'
  -- What the other transaction holds, this one has not written.
  have hother (j : JobId) (hholds : txn.Holds j) (job : PushJob)
      (hjob : work.writes.get j = some job) : False := by
    have hheld := (hwork.writes j job hjob).1
    rw [hsound.held hholds] at hheld
    exact hne (Option.some.inj hheld)
  refine .inr ⟨htxn', ?_, ?_, Nat.le_refl _, Nat.le_succ _, ?_, fun claim hclaim => .inl hclaim⟩
  · exact fun j _ hheld => RowLocks.release_of_held hheld hne
  · intro j hholds
    change (db.seen work).get j = db.jobs.get j
    rw [Db.get_seen]
    rcases hown : work.writes.get j with _ | job
    · rfl
    · exact (hother j hholds job hown).elim
  · intro c hc
    rcases List.mem_append.mp hc with hc | hc
    · exact .inl hc
    · obtain ⟨e, he, rfl⟩ := List.mem_map.mp hc
      refine .inr fun j hj hholds => ?_
      obtain ⟨⟨job, hjob⟩, _⟩ := hwork.ended e he j hj
      exact hother j hholds job hjob

/-! ### The pipeline -/

/-- A claim begins where nobody holds the trigger: every change on it is committed. -/
theorem Db.Sound.lockDue (h : db.Sound) {workerId : String} {now : Time}
    (hlock : db.lockDue t j workerId now = some db') :
    { db' with clock := db.clock + 1 }.Sound := by
  unfold Db.lockDue at hlock
  split at hlock
  next job hopen hjob =>
    split at hlock <;> cases hlock
    next hdue =>
      have hpending : job.status = .pending := by
        have hall := hdue.1
        simp only [PushJob.due, Bool.and_eq_true, decide_eq_true_eq] at hall
        exact hall.1.1
      refine h.of_txns (h.committed.of_eq rfl (Nat.le_refl _) (Nat.le_succ _) rfl rfl rfl)
        fun t' txn htxn => ?_
      rcases update_cases htxn with ⟨rfl, hnew⟩ | ⟨_, htxn⟩
      · cases hnew
        refine .inl ⟨RowLocks.lock_self, ⟨job, hjob, hpending⟩, Nat.lt_succ_self _, ?_⟩
        exact fun c hc _ => (h.committed.changes c hc).1
      · refine .inr ⟨htxn, .of_eq (fun k hholds hheld => ?_) rfl (Nat.le_refl _) (Nat.le_succ _)
          rfl rfl⟩
        exact RowLocks.lock_of_held hheld (.inl hdue.2)
  next => cases hlock

/-- What a transaction of the pipeline may make of the committed rows: it rewrites one. -/
structure Rewrites (db db' : Db) (j : JobId) (job job' : PushJob) : Prop where
  row : db.jobs.get j = some job
  rows : ∀ k, db'.jobs.get k = if k = j then some job' else db.jobs.get k
  nextJob : db'.nextJob = db.nextJob
  clock : db'.clock = db.clock + 1
  changes : db'.changes = db.changes
  /-- A claim is newer than the changes on its trigger. -/
  claims : ∀ claim ∈ db'.claims, claim ∈ db.claims ∨
    claim.trigger = j ∧ claim.step < db'.clock ∧
      ∀ c ∈ db.changes, c.trigger = some j → c.committedAt < claim.step
  keepsSendings : ∀ s ∈ db.sendings, s ∈ db'.sendings
  /-- A round reaches every device the row does not leave out. -/
  sendings : ∀ s ∈ db'.sendings, s ∈ db.sendings ∨
    s.trigger = j ∧ s.step = db.clock ∧ job'.WentOut ∧
      ∀ device ∈ s.devices, device.cloudSyncEnabled = true → device.TakesPush →
        s.Reaches device ∨ job.payload.sourceDeviceId = some device.id
  carries : job.Carries job'
  status : job'.Unsettled ∨ ∃ s ∈ db'.sendings, s.trigger = j
  wentOut : job.WentOut → job'.WentOut

theorem Db.Committed.rewrites (h : db.Committed) (hrewrites : Rewrites db db' j job job') :
    db'.Committed := by
  obtain ⟨hrow, hrows, hnext, hclock, hchanges, hclaims, hkeeps, hsendings, hcarries, hstatus, hout⟩ :=
    hrewrites
  have hself : db'.jobs.get j = some job' := by rw [hrows, if_pos rfl]
  constructor
  · intro k row hk
    rw [hrows] at hk
    rw [hnext]
    split at hk
    next heq =>
      cases hk
      obtain ⟨hbelow, htrigger⟩ := h.rows j job hrow
      exact ⟨heq ▸ hbelow, hcarries.isTrigger htrigger⟩
    next => exact h.rows k row hk
  · intro claim hclaim
    rcases hclaims claim hclaim with hold | ⟨_, hbefore, _⟩
    · exact hclock ▸ Nat.lt_succ_of_lt (h.claims claim hold)
    · exact hbefore
  · intro s hs
    rcases hsendings s hs with hold | ⟨rfl, _, hnew, _⟩
    · obtain ⟨row, hget, hrowOut⟩ := h.sendings s hold
      by_cases heq : s.trigger = j
      · subst heq
        rw [hrow] at hget
        cases hget
        exact ⟨job', hself, hout hrowOut⟩
      · exact ⟨row, by rw [hrows, if_neg heq, hget], hrowOut⟩
    · exact ⟨job', hself, hnew⟩
  · intro c hc
    rw [hchanges] at hc
    obtain ⟨hbefore, hlost, hleaves⟩ := h.changes c hc
    refine ⟨hclock ▸ Nat.lt_succ_of_lt hbefore, hlost, fun k hk => ?_⟩
    have hold := hleaves k hk
    constructor
    · by_cases heq : k = j
      · subst heq
        refine ⟨job', hself, ?_⟩
        rcases hstatus with (hpending | hprocessing | hfailed) | hsent
        · exact .inl hpending
        · exact .inr (.inl hprocessing)
        · exact .inr (.inr (.inl hfailed))
        · exact .inr (.inr (.inr hsent))
      · obtain ⟨row, hget, hkept⟩ := hold.kept
        refine ⟨row, by rw [hrows, if_neg heq, hget], ?_⟩
        rcases hkept with hpending | hprocessing | hfailed | ⟨s, hs, htrigger⟩
        · exact .inl hpending
        · exact .inr (.inl hprocessing)
        · exact .inr (.inr (.inl hfailed))
        · exact .inr (.inr (.inr ⟨s, hkeeps s hs, htrigger⟩))
    · intro claim hclaim htrigger
      rcases hclaims claim hclaim with hbefore' | ⟨heq, _, hnew⟩
      · exact hold.claimed claim hbefore' htrigger
      · exact .inr (hnew c hc (hk.trans (congrArg some (htrigger.symm.trans heq))))
    · intro s hs htrigger
      rcases hsendings s hs with hbefore' | ⟨_, hstep, _⟩
      · exact hold.sent s hbefore' htrigger
      · exact hstep ▸ hbefore
    · intro s hs htrigger device hdevice hsyncs htakes
      rcases hsendings s hs with hbefore' | ⟨heq, _, _, hreaches⟩
      · exact hold.audience s hbefore' htrigger device hdevice hsyncs htakes
      · obtain rfl : k = j := htrigger.symm.trans heq
        rcases hreaches device hdevice hsyncs htakes with hreached | hsource
        · exact .inl hreached
        · exact .inr (hold.leavesOut job device.id hrow hsource)
    · intro row deviceId hget hsource
      rw [hrows] at hget
      split at hget
      next heq =>
        cases hget
        subst heq
        exact hold.leavesOut job deviceId hrow (hcarries.payload ▸ hsource)
      next => exact hold.leavesOut row deviceId hget hsource

/-- A row that no open transaction but `t` holds may be rewritten. -/
theorem Rewrites.frame {txn : Txn} (hrewrites : Rewrites db db' j job job')
    (hlocks : ∀ k, db.locks k = some t → db'.locks k = some t) (hfree : ¬ txn.Holds j) :
    Frame db db' t txn where
  locks := fun k _ hheld => hlocks k hheld
  rows := fun k hholds => by
    rw [hrewrites.rows, if_neg]
    rintro rfl
    exact hfree hholds
  nextJob := Nat.le_of_eq hrewrites.nextJob.symm
  clock := hrewrites.clock ▸ Nat.le_succ _
  changes := fun c hc => .inl (hrewrites.changes ▸ hc)
  claims := fun claim hclaim => by
    rcases hrewrites.claims claim hclaim with hold | ⟨rfl, _, _⟩
    · exact .inl hold
    · exact .inr hfree

/-- A transaction of the pipeline on a job it has claimed. -/
theorem Db.Sound.rewrites (h : db.Sound) (hrewrites : Rewrites db db' j job job')
    (hstatus : job.status = .processing) (hlocks : db'.locks = db.locks)
    (htxns : db'.txns = db.txns) : db'.Sound := by
  refine h.of_txns (h.committed.rewrites hrewrites) fun t txn htxn => ?_
  rw [htxns] at htxn
  refine .inr ⟨htxn, hrewrites.frame (fun k hheld => hlocks ▸ hheld) fun hholds => ?_⟩
  -- A held row waits.
  have hpending := (h.txns t txn htxn).pending hholds hrewrites.row
  rw [hstatus] at hpending
  cases hpending

/-- A job given back is rewritten with what it had. -/
theorem Rewrites.of_givesBack (hrow : db.jobs.get j = some job) (hgives : job.GivesBack job')
    (hfailed : job.status ≠ .failed)
    (hrows : ∀ k, db'.jobs.get k = if k = j then some job' else db.jobs.get k)
    (hnext : db'.nextJob = db.nextJob) (hclock : db'.clock = db.clock + 1)
    (hchanges : db'.changes = db.changes)
    (hclaims : ∀ claim ∈ db'.claims, claim ∈ db.claims ∨
      claim.trigger = j ∧ claim.step < db'.clock ∧
        ∀ c ∈ db.changes, c.trigger = some j → c.committedAt < claim.step)
    (hsendings : db'.sendings = db.sendings) : Rewrites db db' j job job' where
  row := hrow
  rows := hrows
  nextJob := hnext
  clock := hclock
  changes := hchanges
  claims := hclaims
  keepsSendings := fun s hs => hsendings ▸ hs
  sendings := fun s hs => .inl (hsendings ▸ hs)
  carries := hgives.toCarries
  status := .inl hgives.status
  wentOut := fun hout => by
    refine .inl ?_
    rw [PushJob.hasDeliveries, hgives.deliveries]
    exact hout.resolve_right hfailed

theorem Db.Sound.commitClaim (h : db.Sound) {workerId : String} {now : Time} {step : Nat}
    (htxn : db.txns t = some (.claim j workerId now step)) :
    { db.commitClaim t j workerId now step with clock := db.clock + 1 }.Sound := by
  have hclaim : ClaimSound db t j step := h.txns t _ htxn
  obtain ⟨job, hjob, hpending⟩ := hclaim.row
  have hrewrites : Rewrites db { db.commitClaim t j workerId now step with clock := db.clock + 1 } j
      job (job.claim workerId now) := by
    refine .of_givesBack hjob (claim_givesBack job workerId now) (by rw [hpending]; exact nofun)
      (fun k => ?_) rfl rfl rfl (fun claim hmem => ?_) rfl
    · change (db.jobs.modify _).get k = _
      rw [Table.get_modify]
      by_cases hk : k = j
      · subst hk
        simp [hjob]
      · simp [hk]
    · rcases List.mem_append.mp hmem with hold | hnew
      · exact .inl hold
      · rw [List.mem_singleton.mp hnew]
        exact .inr ⟨rfl, Nat.lt_succ_of_lt hclaim.begun, hclaim.changes⟩
  refine h.of_txns (h.committed.rewrites hrewrites) fun t' txn htxn' => ?_
  rcases update_cases htxn' with ⟨_, hnone⟩ | ⟨hne, htxn'⟩
  · cases hnone
  refine .inr ⟨htxn', hrewrites.frame (fun k hheld => RowLocks.release_of_held hheld hne) ?_⟩
  intro hholds
  have hheld := (h.txns t' txn htxn').held hholds
  rw [hclaim.held] at hheld
  exact hne (Option.some.inj hheld).symm

theorem Db.Sound.rewrite (h : db.Sound) {p : PushJob → Bool} {f : PushJob → PushJob}
    (hgives : ∀ job : PushJob, job.GivesBack (f job)) (hrewrite : db.rewrite j p f = some db') :
    { db' with clock := db.clock + 1 }.Sound := by
  unfold Db.rewrite at hrewrite
  split at hrewrite
  next job hjob =>
    split at hrewrite <;> cases hrewrite
    next hclaimed =>
      have hrewrites : Rewrites db { db with jobs := db.jobs.set j (f job), clock := db.clock + 1 } j
          job (f job) :=
        .of_givesBack hjob (hgives job) (by rw [hclaimed.1]; exact nofun)
          (fun k => Table.get_set ..) rfl rfl rfl (fun claim hclaim => .inl hclaim) rfl
      exact h.rewrites hrewrites hclaimed.1 rfl rfl
  next => cases hrewrite

/-- A round of a trigger reaches every device that syncs, takes pushes and is not left out. -/
theorem process_reaches {cfg : Settings} {now : Time} {round : Round} {devices : List UserDevice}
    {device : UserDevice} (hdevice : device ∈ devices) (hsyncs : device.cloudSyncEnabled = true)
    (htakes : device.TakesPush) (htrigger : job.IsTrigger)
    (hsource : job.payload.sourceDeviceId ≠ some device.id)
    (htokens : round.tokens = triggerTokens devices) :
    ∃ token ∈ device.standardTokens, ∃ d ∈ ((job.insertDeliveries now
      (job.recipients round)).deliverRound cfg now round).deliveries, d.token = token := by
  obtain ⟨token, htoken⟩ := List.exists_mem_of_ne_nil _ htakes.2
  -- One of its tokens is among those the round files deliveries for.
  have hrow : (⟨token, device.id, device.macos, device.schedulesLocally⟩ : TokenRow) ∈
      job.recipients round := by
    rw [PushJob.recipients, List.mem_filter]
    constructor
    · rw [htokens, triggerTokens, List.mem_flatMap]
      exact ⟨device, List.mem_filter.mpr ⟨hdevice, hsyncs⟩, List.mem_map_of_mem htoken⟩
    · simp [PushJob.leavesOut, PushJob.isCovered, htrigger.channel, htakes.1, hsource]
  obtain ⟨d, hd, hdtoken⟩ : ∃ d ∈ (job.insertDeliveries now (job.recipients round)).deliveries,
      d.token = token := exists_mem_insertDeliveries hrow
  obtain ⟨d', hd', hfollows⟩ := deliverRound_evolve.kept d hd
  exact ⟨token, htoken, d', hd', hfollows.token.trans hdtoken⟩

/-- The round of a trigger that was not held back. -/
theorem Rewrites.of_round {cfg : Settings} {now : Time} {round : Round}
    (hrow : db.jobs.get j = some job) (htrigger : job.IsTrigger) (devices : List UserDevice)
    (htokens : round.tokens = triggerTokens devices) :
    let sent := (job.insertDeliveries now (job.recipients round)).deliverRound cfg now round
    Rewrites db
      { db with
        jobs := db.jobs.set j sent
        sendings := db.sendings ++ [⟨j, db.clock, devices, sent.deliveries⟩]
        clock := db.clock + 1 } j job sent where
  row := hrow
  rows := fun k => Table.get_set ..
  nextJob := rfl
  clock := rfl
  changes := rfl
  claims := fun claim hclaim => .inl hclaim
  keepsSendings := fun s hs => List.mem_append_left _ hs
  sendings := fun s hs => by
    rcases List.mem_append.mp hs with hs | hs
    · exact .inl hs
    · rw [List.mem_singleton.mp hs]
      refine .inr ⟨rfl, rfl, deliverRound_wentOut .., fun device hdevice hsyncs htakes => ?_⟩
      by_cases hsource : job.payload.sourceDeviceId = some device.id
      · exact .inr hsource
      · exact .inl (process_reaches hdevice hsyncs htakes htrigger hsource htokens)
  carries := by
    refine .trans ?_ (deliverRound_carries ..)
    obtain ⟨new, hinsert⟩ := insertDeliveries_append job now (job.recipients round)
    rw [hinsert]
    exact ⟨rfl, rfl, rfl, rfl⟩
  status := .inr ⟨_, List.mem_append_right _ (List.mem_singleton_self _), rfl⟩
  wentOut := fun _ => deliverRound_wentOut ..

theorem Db.Sound.process (h : db.Sound) {cfg : Settings} {workerId : String} {now : Time}
    {round : Round} {devices : List UserDevice}
    (hprocess : Db.process cfg db j workerId now round devices = some db') :
    { db' with clock := db.clock + 1 }.Sound := by
  unfold Db.process at hprocess
  split at hprocess
  next job hjob =>
    split at hprocess
    next hclaimed =>
      have htrigger := (h.committed.rows j job hjob).2
      dsimp only at hprocess
      rw [process_trigger htrigger hclaimed] at hprocess
      split at hprocess
      next hgoes =>
        cases hprocess
        exact h.rewrites (.of_round hjob htrigger devices rfl) hclaimed.1 rfl rfl
      next hheld =>
        cases hprocess
        have hgives := materialize_givesBack htrigger (Bool.eq_false_iff.mpr hheld)
        refine h.rewrites (.of_givesBack hjob hgives ?_ (fun k => Table.get_set ..) rfl rfl rfl
          (fun claim hclaim => .inl hclaim) rfl) hclaimed.1 rfl rfl
        rw [hclaimed.1]
        exact nofun
    next => cases hprocess
  next => cases hprocess

/-- The portal's trigger is a new row that leaves nobody out. -/
theorem Db.Sound.force (h : db.Sound) (me : UserId) (key : String) (now : Time) :
    { db.force me key now with clock := db.clock + 1 }.Sound := by
  unfold Db.force
  dsimp only
  split
  · refine h.of_txns (h.committed.of_eq rfl (Nat.le_refl _) (Nat.le_succ _) rfl rfl rfl)
      fun t txn htxn => .inr ⟨htxn, ?_⟩
    exact .of_eq (fun _ _ hheld => hheld) rfl (Nat.le_refl _) (Nat.le_succ _) rfl rfl
  set new := (forcedTrigger me key now).row now
  have hother (k : JobId) (hbelow : k < db.nextJob) :
      (db.jobs.set db.nextJob new).get k = db.jobs.get k := by
    rw [Table.get_set, if_neg (Nat.ne_of_lt hbelow)]
  refine h.of_txns ⟨?_, ?_, ?_, ?_⟩ fun t txn htxn => .inr ⟨htxn, ?_⟩
  · refine Table.Forall.set (h.committed.rows.mono fun k row hrow => ?_) ?_
    · exact ⟨Nat.lt_succ_of_lt hrow.1, hrow.2⟩
    · exact ⟨Nat.lt_succ_self _, rfl, rfl, rfl⟩
  · exact fun claim hclaim => Nat.lt_succ_of_lt (h.committed.claims claim hclaim)
  · intro s hs
    obtain ⟨row, hrow, hout⟩ := h.committed.sendings s hs
    exact ⟨row, (hother _ (h.committed.rows _ row hrow).1).trans hrow, hout⟩
  · intro c hc
    obtain ⟨hbefore, hlost, hleaves⟩ := h.committed.changes c hc
    refine ⟨Nat.lt_succ_of_lt hbefore, hlost, fun j hj => ?_⟩
    have hold := hleaves j hj
    obtain ⟨job, hjob, hkept⟩ := hold.kept
    have hsame := hother j (h.committed.rows j job hjob).1
    exact { hold with
      kept := ⟨job, hsame.trans hjob, hkept⟩
      leavesOut := fun row deviceId hrow => hold.leavesOut row deviceId (hsame.symm.trans hrow) }
  · exact
      { locks := fun _ _ hheld => hheld
        rows := fun j hholds => hother j ((h.txns t txn htxn).below h.committed hholds)
        nextJob := Nat.le_succ _
        clock := Nat.le_succ _
        changes := fun c hc => .inl hc
        claims := fun claim hclaim => .inl hclaim }

/-! ### Every run -/

variable {cfg : Settings} {me : UserId}

theorem Db.Sound.step {l : Label} (h : db.Sound) (hstep : step cfg me db l = some db') :
    db'.Sound := by
  obtain ⟨after, hperform, rfl⟩ := Option.map_eq_some_iff.mp hstep
  cases l with
  | readLatest t sourceDeviceId =>
    simp only [Db.perform] at hperform
    split at hperform
    next =>
      cases hperform
      exact h.setWork ((Work.Sound.empty db t).setCall _)
    next work hwork =>
      split at hperform <;> cases hperform
      have hsound : work.Sound db t := h.txns t _ hwork
      exact h.setWork (hsound.setCall _)
    next => cases hperform
  | ride t =>
    obtain ⟨⟨work, call⟩, hcall, rfl⟩ := Option.map_eq_some_iff.mp hperform
    exact h.ride (h.calling hcall)
  | file t now =>
    obtain ⟨⟨work, call⟩, hcall, hfile⟩ := Option.bind_eq_some_iff.mp hperform
    exact h.file (h.calling hcall) hfile
  | reread t =>
    obtain ⟨⟨work, call⟩, hcall, rfl⟩ := Option.map_eq_some_iff.mp hperform
    exact h.reread (h.calling hcall)
  | lockDue t j workerId now => exact h.lockDue hperform
  | commit t =>
    simp only [Db.perform] at hperform
    split at hperform
    next work hwork =>
      split at hperform <;> cases hperform
      exact h.commitWork hwork
    next j workerId now step hclaim =>
      cases hperform
      exact h.commitClaim hclaim
    next => cases hperform
  | rollback t =>
    obtain ⟨txn, _, rfl⟩ := Option.map_eq_some_iff.mp hperform
    exact h.close t
  | recoverStale j now => exact h.rewrite (fun job => recoverStale_givesBack cfg job now) hperform
  | release j workerId => exact h.rewrite release_givesBack hperform
  | process j workerId now round devices => exact h.process hperform
  | crash j now => exact h.rewrite (fun job => crash_givesBack cfg job now) hperform
  | force key now =>
    cases hperform
    exact h.force me key now

def defaultTimes : Settings := ⟨20, 300 * SECOND, 60 * SECOND, 60 * SECOND, 600 * SECOND⟩

def phone : UserDevice := ⟨11, false, false, true, [⟨"phone", "standard", ""⟩]⟩

def tablet : UserDevice := ⟨12, false, false, true, [⟨"tablet", "standard", ""⟩]⟩

def mac : UserDevice := ⟨13, true, false, true, [⟨"mac", "standard", ""⟩]⟩

/-- A round whose sends all succeed. -/
def allReached : Round where
  rowsVerdict := none
  announcedAt := none
  sendAfter := none
  quiet := none
  courseRecheck := .unconfirmed
  registered := false
  lastTriggerSent := none
  tokens := []
  covered := []
  waiting := []
  sends := fun _ => .success

/-- A call that files a trigger, in a transaction of its own. -/
def files (t : TxnId) (source : Option DeviceId) (now : Time) : List Label :=
  [.readLatest t source, .ride t, .file t now, .commit t]

/-- A trigger is claimed and goes out. -/
def goesOut (t : TxnId) (j : JobId) (now : Time) (devices : List UserDevice) : List Label :=
  [.lockDue t j "worker" now, .commit t, .process j "worker" now allReached devices]

/-- The phone files a trigger, and the tablet rides on it before it goes out. -/
def tabletRides : List Label :=
  files 1 (some 11) SECOND ++ [.readLatest 2 (some 12), .ride 2, .commit 2] ++
    goesOut 3 1 (2 * SECOND) [phone, tablet, mac]

/-- The phone edits again and again: each edit files a trigger while the last one is held by an
edit of the phone's that rides on it. The tablet's call has read before all of them. -/
def tabletLoses : List Label :=
  ([.readLatest 0 (some 12), .ride 0] : List Label) ++ files 1 (some 11) SECOND ++
    ([.readLatest 2 (some 11), .ride 2] : List Label) ++ files 3 (some 11) (2 * SECOND) ++
    ([.readLatest 4 (some 11), .ride 4] : List Label) ++ files 5 (some 11) (3 * SECOND) ++
    ([.readLatest 6 (some 11), .ride 6] : List Label) ++ files 7 (some 11) (4 * SECOND) ++
    ([.readLatest 8 (some 11), .ride 8] : List Label) ++ files 9 (some 11) (5 * SECOND) ++
    ([.file 0 (6 * SECOND), .reread 0, .ride 0, .file 0 (6 * SECOND), .reread 0,
      .ride 0, .file 0 (6 * SECOND), .reread 0, .ride 0, .file 0 (6 * SECOND), .reread 0,
      .ride 0, .file 0 (6 * SECOND), .reread 0, .commit 0, .commit 2, .commit 4, .commit 6,
      .commit 8] : List Label)

/-- A server change whose trigger goes out to a Mac. -/
def macIsLeftOut : List Label := files 1 none SECOND ++ goesOut 2 1 (2 * SECOND) [mac]

end SyncTriggers

end TigerDuck.Push
