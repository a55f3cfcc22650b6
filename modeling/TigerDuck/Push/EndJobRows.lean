import TigerDuck.Push.ActivityRegisters
import TigerDuck.Push.DeliveryStates
import TigerDuck.Push.Filing
import TigerDuck.Push.HandledJobs

/-!
# The rows of end jobs

What a transaction beside the rounds and the registers may make of a job's row: it stays under its
key, it goes out to nobody, and none that was over comes back. Of the new rows only a submission's
ends have an end job's key, and nothing of them has been sent.

- `Db.Sides`: what such a transaction makes of the table.
- `sides_step`, `Db.Sides.cancelForSubmitted`: the transactions.
- `PushJob.process_unsent`: a round that hands nothing over leaves its job unfinished.
-/

namespace TigerDuck.Push

open Relational Transition
open SyncJobs (MoodleId)

namespace PushJob

/-- The statuses that `_retire_finished_end_job` looks for. -/
def Finished (job : PushJob) : Prop := job.status = .sent ∨ job.status = .partialFailed

/-- A job still to go out. -/
def Waiting (job : PushJob) : Prop := job.status = .pending ∨ job.status = .processing

/-- The columns that say what the job is and to whom it goes. -/
structure SameRow (job job' : PushJob) : Prop where
  userId : job'.userId = job.userId
  dedupeKey : job'.dedupeKey = job.dedupeKey
  channel : job'.channel = job.channel
  deviceId : job'.deviceId = job.deviceId
  payload : job'.payload = job.payload

/-- A job as a transaction beside the rounds and the registers leaves it. -/
structure Side (job job' : PushJob) : Prop where
  userId : job'.userId = job.userId
  dedupeKey : job'.dedupeKey = job.dedupeKey
  channel : job'.channel = job.channel
  deviceId : job'.deviceId = job.deviceId
  payload : job.dedupeKey.ofEnd = true →
    job'.payload.activityEnd = job.payload.activityEnd ∧
      job'.payload.activityId = job.payload.activityId
  active : job'.status.dedupeActive = true → job.status.dedupeActive = true
  finished : job'.Finished → job.Finished
  sent : job'.HasSent → job.HasSent
  tokens : ∀ d' ∈ job'.deliveries, ∃ d ∈ job.deliveries, d.token = d'.token

/-- An end job goes to its activity. -/
def EndShape (job : PushJob) : Prop :=
  ∀ deviceId activityId, job.dedupeKey = .activityEnd deviceId activityId →
    job.isEnd = true ∧ job.payload.activityId = some activityId

/-- A row that such a transaction files. -/
structure Fresh (job : PushJob) : Prop where
  unfinished : ¬ job.Finished
  deliveries : job.deliveries = []
  shape : job.EndShape
  device : ∀ deviceId activityId, job.dedupeKey = .activityEnd deviceId activityId →
    job.deviceId = some deviceId
  notRetired : ∀ deviceId activityId k, job.dedupeKey ≠ .finished deviceId activityId k

variable {job job' job'' : PushJob} {now : Time}

theorem active_iff : job.status.dedupeActive = true ↔ job.Waiting ∨ job.Finished := by
  unfold Waiting Finished
  cases job.status <;> simp [PushJobStatus.dedupeActive]

theorem Waiting.not_finished (h : job.Waiting) : ¬ job.Finished := by
  rintro (hsent | hpartial) <;> rcases h with h | h <;> simp_all

namespace SameRow

theorem refl (job : PushJob) : job.SameRow job := ⟨rfl, rfl, rfl, rfl, rfl⟩

theorem trans (h : job.SameRow job') (h' : job'.SameRow job'') : job.SameRow job'' where
  userId := h'.userId.trans h.userId
  dedupeKey := h'.dedupeKey.trans h.dedupeKey
  channel := h'.channel.trans h.channel
  deviceId := h'.deviceId.trans h.deviceId
  payload := h'.payload.trans h.payload

/-- A waiting job that is handed on or given up. -/
theorem side (h : job.SameRow job') (hdeliveries : job'.deliveries = job.deliveries)
    (hwaiting : job.Waiting) (hunfinished : ¬ job'.Finished) : job.Side job' where
  userId := h.userId
  dedupeKey := h.dedupeKey
  channel := h.channel
  deviceId := h.deviceId
  payload := fun _ => by rw [h.payload]; exact ⟨rfl, rfl⟩
  active := fun _ => active_iff.mpr (.inl hwaiting)
  finished := fun hfinished => absurd hfinished hunfinished
  sent := fun hsent => by rwa [HasSent, hdeliveries] at hsent
  tokens := fun d hd => ⟨d, hdeliveries ▸ hd, rfl⟩

theorem endShape (h : job.SameRow job') (hshape : job.EndShape) : job'.EndShape := by
  intro deviceId activityId hkey
  rw [h.dedupeKey] at hkey
  rw [isEnd, h.channel, h.payload]
  exact hshape deviceId activityId hkey

end SameRow

namespace Side

theorem refl (job : PushJob) : job.Side job where
  userId := rfl
  dedupeKey := rfl
  channel := rfl
  deviceId := rfl
  payload := fun _ => ⟨rfl, rfl⟩
  active := id
  finished := id
  sent := id
  tokens := fun d hd => ⟨d, hd, rfl⟩

theorem trans (h : job.Side job') (h' : job'.Side job'') : job.Side job'' where
  userId := h'.userId.trans h.userId
  dedupeKey := h'.dedupeKey.trans h.dedupeKey
  channel := h'.channel.trans h.channel
  deviceId := h'.deviceId.trans h.deviceId
  payload := fun hkey => by
    obtain ⟨hend, hactivity⟩ := h.payload hkey
    obtain ⟨hend', hactivity'⟩ := h'.payload (h.dedupeKey ▸ hkey)
    exact ⟨hend'.trans hend, hactivity'.trans hactivity⟩
  active := fun hactive => h.active (h'.active hactive)
  finished := fun hfinished => h.finished (h'.finished hfinished)
  sent := fun hsent => h.sent (h'.sent hsent)
  tokens := fun d'' hd'' => by
    obtain ⟨d', hd', htoken'⟩ := h'.tokens d'' hd''
    obtain ⟨d, hd, htoken⟩ := h.tokens d' hd'
    exact ⟨d, hd, htoken.trans htoken'⟩

theorem endShape (h : job.Side job') (hshape : job.EndShape) : job'.EndShape := by
  intro deviceId activityId hkey
  rw [h.dedupeKey] at hkey
  obtain ⟨hend, hactivity⟩ := h.payload (by rw [hkey]; rfl)
  rw [isEnd, h.channel, hend, hactivity]
  exact hshape deviceId activityId hkey

theorem fresh (h : job.Side job') (hfresh : job.Fresh) : job'.Fresh where
  unfinished := fun hfinished => hfresh.unfinished (h.finished hfinished)
  deliveries := by
    refine List.eq_nil_iff_forall_not_mem.mpr fun d hd => ?_
    obtain ⟨d', hd', -⟩ := h.tokens d hd
    rw [hfresh.deliveries] at hd'
    cases hd'
  shape := h.endShape hfresh.shape
  device := fun deviceId activityId hkey => by
    rw [h.deviceId]
    exact hfresh.device deviceId activityId (h.dedupeKey ▸ hkey)
  notRetired := fun deviceId activityId k hkey =>
    hfresh.notRetired deviceId activityId k (h.dedupeKey ▸ hkey)

end Side

/-! ### The single writes -/

theorem claim_side (h : job.status = .pending) (workerId : String) :
    job.Side (job.claim workerId now) :=
  SameRow.side ⟨rfl, rfl, rfl, rfl, rfl⟩ rfl (.inl h) (by rintro (h | h) <;> cases h)

theorem release_side (h : job.status = .processing) : job.Side job.release :=
  SameRow.side ⟨rfl, rfl, rfl, rfl, rfl⟩ rfl (.inr h) (by rintro (h | h) <;> cases h)

theorem cancel_side (h : job.status = .pending) : job.Side (job.cancel now) :=
  SameRow.side ⟨rfl, rfl, rfl, rfl, rfl⟩ rfl (.inl h) (by rintro (h | h) <;> cases h)

theorem recoverStale_side (cfg : Settings) (h : job.status = .processing) :
    job.Side (job.recoverStale cfg now) := by
  unfold recoverStale
  dsimp only
  split <;> exact SameRow.side ⟨rfl, rfl, rfl, rfl, rfl⟩ rfl (.inr h) (by rintro (h | h) <;> cases h)

theorem crash_side (cfg : Settings) (h : job.status = .processing) :
    job.Side (job.crash cfg now) := by
  unfold crash
  dsimp only
  split <;> exact SameRow.side ⟨rfl, rfl, rfl, rfl, rfl⟩ rfl (.inr h) (by rintro (h | h) <;> cases h)

theorem accelerateEnd_side (new : NewJob) : job.Side (Db.accelerateEnd now new job) := by
  unfold Db.accelerateEnd
  split
  next hwaits =>
    exact SameRow.side ⟨rfl, rfl, rfl, rfl, rfl⟩ rfl hwaits.2.2 (by rintro (h | h) <;> cases h)
  next => exact .refl job

/-- A schedule's sync rewrites jobs under a start's key. -/
theorem reschedule_side (e : ScheduleEvent) (hkey : job.dedupeKey.ofEnd = false) :
    job.Side (Db.reschedule job e) :=
  { Side.refl job with payload := fun hend => by rw [hkey] at hend; cases hend }

theorem rideRow_side (sourceDeviceId : Option DeviceId) :
    job.Side (Db.rideRow sourceDeviceId job) := by
  unfold Db.rideRow
  split
  · exact { Side.refl job with payload := fun _ => ⟨rfl, rfl⟩ }
  · exact .refl job

theorem syncedRow_side (userId : UserId) (deviceId : DeviceId) :
    job.Side (Db.syncedRow userId deviceId job) := by
  unfold Db.syncedRow
  split
  · refine { Side.refl job with sent := fun hsent => ?_, tokens := fun d' hd' => ?_ }
    · exact (hasSent_map (Db.syncedDelivery_sent_iff deviceId) job.deliveries).mp hsent
    · obtain ⟨d, hd, rfl⟩ := List.mem_map.mp hd'
      refine ⟨d, hd, ?_⟩
      unfold Db.syncedDelivery skipPending
      split <;> [split; skip] <;> rfl
  · exact .refl job

/-! ### A round -/

theorem Held.side (h : job.Held now job') (hwaiting : job.Waiting) : job.Side job' := by
  cases h with
  | cancelled => exact SameRow.side ⟨rfl, rfl, rfl, rfl, rfl⟩ rfl hwaiting (by rintro (h | h) <;> cases h)
  | failed => exact SameRow.side ⟨rfl, rfl, rfl, rfl, rfl⟩ rfl hwaiting (by rintro (h | h) <;> cases h)
  | putBack => exact SameRow.side ⟨rfl, rfl, rfl, rfl, rfl⟩ rfl hwaiting (by rintro (h | h) <;> cases h)
  | skipped code =>
    refine { Side.refl job with
      active := fun hactive => by cases hactive
      finished := by rintro (h | h) <;> cases h
      sent := fun hsent => (hasSent_map (skipPending_sent_iff code) job.deliveries).mp hsent
      tokens := fun d' hd' => ?_ }
    obtain ⟨d, hd, rfl⟩ := List.mem_map.mp hd'
    refine ⟨d, hd, ?_⟩
    unfold skipPending
    split <;> rfl

theorem deliverRound_sameRow (cfg : Settings) (job : PushJob) (now : Time) (round : Round) :
    job.SameRow (job.deliverRound cfg now round) := by
  have haggregate (ds : List PushDelivery) : job.SameRow (job.aggregate now ds) := by
    unfold aggregate
    dsimp only
    split
    · exact ⟨rfl, rfl, rfl, rfl, rfl⟩
    · split <;> exact ⟨rfl, rfl, rfl, rfl, rfl⟩
  unfold deliverRound
  split
  · exact ⟨rfl, rfl, rfl, rfl, rfl⟩
  dsimp only
  split
  · split
    · exact ⟨rfl, rfl, rfl, rfl, rfl⟩
    · split
      · exact ⟨rfl, rfl, rfl, rfl, rfl⟩
      · exact haggregate _
  · exact haggregate _

/-- What a job's transaction may do with it: leave it when the claim is gone, hold it back, or
carry out a round. -/
theorem process_ends (cfg : Settings) (job : PushJob) (workerId : String) (now : Time)
    (check : Option PresendCheck) (round : Round) :
    (job.process cfg workerId now check round).1 = job ∨
      (job.status = .processing ∧ job.lockedBy = some workerId) ∧
        (job.Held now (job.process cfg workerId now check round).1 ∨
          ∃ job', job.delivering cfg now check round = some job' ∧
            (job.process cfg workerId now check round).1 = job'.deliverRound cfg now round) := by
  by_cases hclaimed : job.status = .processing ∧ job.lockedBy = some workerId
  swap
  · left
    rw [process, if_neg hclaimed]
  refine .inr ⟨hclaimed, ?_⟩
  cases hdelivering : job.delivering cfg now check round with
  | some job' =>
    exact .inr ⟨job', rfl, congrArg Prod.fst (delivering_cases hclaimed hdelivering).2.2⟩
  | none =>
    left
    -- Past the check there is no round only because `_materialize` holds the job.
    have hgo (hgoes : job.goesOn cfg now round check = true) :
        job.Held now (if (job.materialize cfg now round).2 = true then
          (job.materialize cfg now round).1.deliverRound cfg now round
          else (job.materialize cfg now round).1) := by
      rcases materialize_cases cfg job now round with ⟨job', hheld, heq⟩ | ⟨rows, heq⟩
      · rw [heq]
        exact hheld
      · rw [delivering, if_pos hgoes, heq] at hdelivering
        cases hdelivering
    unfold process
    rw [if_pos hclaimed]
    cases check with
    | none =>
      dsimp only
      split
      next => exact .putBack job.availableAt
      next hasked => exact hgo (by rw [goesOn, Bool.not_eq_true']; exact Bool.eq_false_of_not_eq_true hasked)
    | some check =>
      dsimp only
      split
      next hsend => exact hgo (by simpa [goesOn] using hsend)
      next =>
        have hheld : job.Held now (job.heldBack cfg now .submitted) := heldBack_held cfg job now (by decide)
        exact hheld
      next hsend _ => exact heldBack_held cfg job now hsend

theorem process_sameRow (cfg : Settings) (job : PushJob) (workerId : String) (now : Time)
    (check : Option PresendCheck) (round : Round) :
    job.SameRow (job.process cfg workerId now check round).1 := by
  rcases process_ends cfg job workerId now check round with
    heq | ⟨hclaimed, hheld | ⟨job', hdelivering, heq⟩⟩
  · rw [heq]
    exact .refl job
  · generalize (job.process cfg workerId now check round).1 = held at hheld
    cases hheld <;> exact ⟨rfl, rfl, rfl, rfl, rfl⟩
  · rw [heq]
    obtain ⟨⟨new, rfl⟩, -⟩ := delivering_cases hclaimed hdelivering
    have hgrown : job.SameRow { job with deliveries := job.deliveries ++ new } :=
      ⟨rfl, rfl, rfl, rfl, rfl⟩
    exact hgrown.trans (deliverRound_sameRow cfg _ now round)

theorem process_active {cfg : Settings} {workerId : String} {check : Option PresendCheck}
    {round : Round}
    (h : (job.process cfg workerId now check round).1.status.dedupeActive = true) :
    job.status.dedupeActive = true := by
  rcases process_ends cfg job workerId now check round with heq | ⟨hclaimed, -⟩
  · rwa [heq] at h
  · exact active_iff.mpr (.inl (.inr hclaimed.1))

/-- A round that hands nothing over sends nothing, and its job is not finished by it. -/
theorem deliverRound_unsent {cfg : Settings} {round : Round}
    (hnone : ∀ d ∈ job.deliveries, dueDelivery now d = true →
      (round.sends d.token).handed = false) (hunsent : ¬ job.HasSent) :
    ¬ (job.deliverRound cfg now round).HasSent ∧ ¬ (job.deliverRound cfg now round).Finished := by
  have hsends : ∀ d ∈ job.sendDue cfg now round, d.status ≠ .sent := by
    intro d' hd' hsent
    obtain ⟨d, hd, rfl⟩ := List.mem_map.mp hd'
    split at hsent
    next hdue =>
      have hresult := hnone d hd hdue
      cases hsend : round.sends d.token <;> rw [hsend] at hresult hsent <;> cases hresult <;>
        cases hsent
    next => exact hunsent ⟨d, hd, hsent⟩
  have hexhaust : ∀ d ∈ (job.sendDue cfg now round).map exhaust, d.status ≠ .sent := by
    intro d' hd' hsent
    obtain ⟨d, hd, rfl⟩ := List.mem_map.mp hd'
    unfold exhaust at hsent
    split at hsent
    · cases hsent
    · exact hsends d hd hsent
  have hends := deliverRound_ends cfg job now round
  generalize job.deliverRound cfg now round = job' at hends ⊢
  cases hends with
  | noTokens hnil => exact ⟨hunsent, by rintro (h | h) <;> cases h⟩
  | again hstatus hdeliveries =>
    refine ⟨?_, by rintro (h | h) <;> rw [hstatus] at h <;> cases h⟩
    rintro ⟨d, hd, hsent⟩
    exact hsends d (hdeliveries ▸ hd) hsent
  | settled ds hsettled hds =>
    have hds' : ∀ d ∈ ds, d.status ≠ .sent := by
      rcases hds with rfl | rfl
      · exact hsends
      · exact hexhaust
    have hnone : ¬ ∃ d ∈ ds, d.status = .sent := fun ⟨d, hd, hsent⟩ => hds' d hd hsent
    refine ⟨?_, ?_⟩
    · rwa [HasSent, aggregate_deliveries]
    · rw [Finished, aggregate_status, if_neg hnone]
      rintro (h | h) <;> cases h

/-- A new delivery has not been sent. -/
theorem insertDeliveries_sent {rows : List TokenRow}
    (h : (job.insertDeliveries now rows).HasSent) : job.HasSent := by
  unfold HasSent insertDeliveries at h
  unfold HasSent
  dsimp only at h
  generalize job.deliveries = ds at h ⊢
  induction rows generalizing ds with
  | nil => exact h
  | cons row rest ih =>
    rw [List.foldl_cons] at h
    obtain ⟨d, hd, hsent⟩ := ih _ h
    split at hd
    · exact ⟨d, hd, hsent⟩
    · rcases List.mem_append.mp hd with hold | hnew
      · exact ⟨d, hold, hsent⟩
      · rw [List.mem_singleton.mp hnew] at hsent
        cases hsent

/-- A round that hands nothing over leaves its job unsent and unfinished. -/
theorem process_unsent {cfg : Settings} {workerId : String} {check : Option PresendCheck}
    {round : Round} (hwaiting : job.Waiting) (hunsent : ¬ job.HasSent)
    (hnone : ∀ job', (job.status = .processing ∧ job.lockedBy = some workerId) →
      job.delivering cfg now check round = some job' → ∀ d ∈ job'.deliveries,
        dueDelivery now d = true → (round.sends d.token).handed = false) :
    ¬ (job.process cfg workerId now check round).1.HasSent ∧
      ¬ (job.process cfg workerId now check round).1.Finished := by
  rcases process_ends cfg job workerId now check round with
    heq | ⟨hclaimed, hheld | ⟨job', hdelivering, heq⟩⟩
  · rw [heq]
    exact ⟨hunsent, hwaiting.not_finished⟩
  · have hside := hheld.side hwaiting
    exact ⟨fun hsent => hunsent (hside.sent hsent),
      fun hfinished => hwaiting.not_finished (hside.finished hfinished)⟩
  · rw [heq]
    refine deliverRound_unsent (hnone job' hclaimed hdelivering) fun hsent => hunsent ?_
    have hgoes := hdelivering
    unfold delivering at hgoes
    split at hgoes
    · rcases materialize_cases cfg job now round with ⟨held, -, hcase⟩ | ⟨rows, hcase⟩
      · rw [hcase] at hgoes
        cases hgoes
      · rw [hcase] at hgoes
        obtain rfl := Option.some.inj hgoes
        exact insertDeliveries_sent hsent
    · cases hgoes

end PushJob

/-- What a transaction beside the rounds and the registers makes of the jobs. -/
structure Db.Sides (db db' : Db) : Prop where
  nextJob : db.nextJob ≤ db'.nextJob
  below : JobsBelow db'
  unique : db.KeysUnique → db'.KeysUnique
  rows : ∀ j job', db'.jobs.get j = some job' →
    (∃ job, db.jobs.get j = some job ∧ job.Side job') ∨ db.nextJob ≤ j ∧ job'.Fresh

/-- Whether what is filed under an end job's key is an end job. -/
structure NewJob.Fits (new : NewJob) : Prop where
  shape : ∀ deviceId activityId, new.dedupeKey = .activityEnd deviceId activityId →
    new.channel = .schedule ∧ new.payload.activityEnd = true ∧
      new.payload.activityId = some activityId ∧ new.deviceId = some deviceId
  notRetired : ∀ deviceId activityId k, new.dedupeKey ≠ .finished deviceId activityId k

namespace NewJob

theorem Fits.of_not_ofEnd {new : NewJob} (h : new.dedupeKey.ofEnd = false) : new.Fits where
  shape := fun _ _ hkey => by rw [hkey] at h; cases h
  notRetired := fun _ _ _ hkey => by rw [hkey] at h; cases h

theorem Fits.row_fresh {new : NewJob} (h : new.Fits) (now : Time) : (new.row now).Fresh where
  unfinished := by rintro (h | h) <;> cases h
  deliveries := rfl
  shape := fun deviceId activityId hkey => by
    obtain ⟨hchannel, hend, hactivity, -⟩ := h.shape deviceId activityId hkey
    exact ⟨by simp [PushJob.isEnd, row, hchannel, hend], hactivity⟩
  device := fun deviceId activityId hkey => (h.shape deviceId activityId hkey).2.2.2
  notRetired := h.notRetired

end NewJob

namespace Db.Sides

variable {db db' db'' : Db} {now : Time}

/-- A step that leaves the jobs alone. -/
theorem of_eq (hbelow : JobsBelow db) (hjobs : db'.jobs = db.jobs)
    (hnext : db'.nextJob = db.nextJob) : db.Sides db' where
  nextJob := Nat.le_of_eq hnext.symm
  below := fun j hj => by
    rw [hjobs] at hj
    rw [hnext]
    exact hbelow j hj
  unique := fun hunique j j' job job' hjob hjob' =>
    hunique j j' job job' (hjobs ▸ hjob) (hjobs ▸ hjob')
  rows := fun _ job hjob => .inl ⟨job, hjobs ▸ hjob, .refl job⟩

theorem refl (hbelow : JobsBelow db) : db.Sides db := of_eq hbelow rfl rfl

theorem trans (h : db.Sides db') (h' : db'.Sides db'') : db.Sides db'' where
  nextJob := Nat.le_trans h.nextJob h'.nextJob
  below := h'.below
  unique := fun hunique => h'.unique (h.unique hunique)
  rows := fun j job'' hjob'' => by
    rcases h'.rows j job'' hjob'' with ⟨job', hjob', hside'⟩ | ⟨hnew, hfresh⟩
    · rcases h.rows j job' hjob' with ⟨job, hjob, hside⟩ | ⟨hnew, hfresh⟩
      · exact .inl ⟨job, hjob, hside.trans hside'⟩
      · exact .inr ⟨hnew, hside'.fresh hfresh⟩
    · exact .inr ⟨Nat.le_trans h.nextJob hnew, hfresh⟩

/-- The ticks say nothing of the jobs. -/
theorem withTicks (h : db.Sides db') (ticks : TickId → Option Tick) :
    db.Sides { db' with ticks } := h.trans (of_eq h.below rfl rfl)

/-- Rows that are rewritten, or deleted, one by one. -/
theorem of_rows (hbelow : JobsBelow db) (hnext : db'.nextJob = db.nextJob)
    (hrows : ∀ j job', db'.jobs.get j = some job' →
      ∃ job, db.jobs.get j = some job ∧ job.Side job') : db.Sides db' where
  nextJob := Nat.le_of_eq hnext.symm
  below := fun j hj => by
    obtain ⟨job', hjob'⟩ := Option.ne_none_iff_exists'.mp hj
    obtain ⟨job, hjob, -⟩ := hrows j job' hjob'
    rw [hnext]
    exact hbelow j (by rw [hjob]; exact Option.some_ne_none job)
  unique := fun hunique j j' job job' hjob hjob' huser hkey hactive hactive' => by
    obtain ⟨old, hold, hside⟩ := hrows j job hjob
    obtain ⟨old', hold', hside'⟩ := hrows j' job' hjob'
    refine hunique j j' old old' hold hold' ?_ ?_ (hside.active hactive) (hside'.active hactive')
    · rw [← hside.userId, ← hside'.userId, huser]
    · rw [← hside.dedupeKey, ← hside'.dedupeKey, hkey]
  rows := fun j job' hjob' => .inl (hrows j job' hjob')

theorem modifyJobs (hbelow : JobsBelow db) {f : JobId → PushJob → PushJob}
    (hf : ∀ k job, db.jobs.get k = some job → job.Side (f k job)) : db.Sides (db.modifyJobs f) := by
  refine of_rows hbelow rfl fun j job' hjob' => ?_
  rw [Db.modifyJobs, Table.get_modify] at hjob'
  obtain ⟨job, hjob, rfl⟩ := Option.map_eq_some_iff.mp hjob'
  exact ⟨job, hjob, hf j job hjob⟩

theorem updateJob (hbelow : JobsBelow db) (j : JobId) {f : PushJob → PushJob}
    (hf : ∀ job, db.jobs.get j = some job → job.Side (f job)) : db.Sides (db.updateJob j f) := by
  refine modifyJobs hbelow fun k job hjob => ?_
  by_cases hk : k = j
  · rw [if_pos hk]
    exact hf job (hk ▸ hjob)
  · rw [if_neg hk]
    exact .refl job

theorem cancelPending (hbelow : JobsBelow db) (p : JobId → PushJob → Bool) :
    db.Sides (db.cancelPending now p) := by
  refine modifyJobs hbelow fun k job _ => ?_
  unfold cancelRow
  split
  next hpicked => exact PushJob.cancel_side hpicked.1
  next => exact .refl job

/-- A filed job takes the next id. -/
theorem fileJob (hbelow : JobsBelow db) {new : NewJob} (hnew : new.Fits) :
    db.Sides (db.fileJob now new) where
  nextJob := by
    unfold Db.fileJob
    dsimp only
    split
    · exact Nat.le_succ _
    · exact Nat.le_refl _
  below := jobsBelow_fileJob hbelow new
  unique := fun hunique => (Filed.single hbelow hunique).unique
  rows := fun j job' hjob' => by
    by_cases hholds : db.Holds new.userId new.dedupeKey
    · rw [fileJob_of_holds hholds] at hjob'
      exact .inl ⟨job', hjob', .refl job'⟩
    · rw [fileJob_of_not_holds hholds, Table.get_set] at hjob'
      split at hjob'
      next hj =>
        obtain rfl := Option.some.inj hjob'
        exact .inr ⟨Nat.le_of_eq hj.symm, hnew.row_fresh now⟩
      next => exact .inl ⟨job', hjob', .refl job'⟩

theorem fileJobs (hbelow : JobsBelow db) {rows : List NewJob} (hrows : ∀ new ∈ rows, new.Fits) :
    db.Sides (db.fileJobs now rows) := by
  unfold Db.fileJobs
  induction rows generalizing db with
  | nil => exact refl hbelow
  | cons new rest ih =>
    have hfirst : db.Sides (db.fileJob now new) := fileJob hbelow (hrows new List.mem_cons_self)
    exact hfirst.trans (ih hfirst.below fun n hn => hrows n (List.mem_cons_of_mem _ hn))

/-- The ends a submission files. -/
theorem endJob_fits (userId : UserId) (now : Time) {activity : RunningActivity}
    (h : activity.fits = true) : (Push.endJob userId now activity).Fits where
  shape := fun deviceId activityId hkey => by
    simp only [RunningActivity.fits, Bool.and_eq_true, decide_eq_true_eq] at h
    obtain ⟨rfl, rfl⟩ := DedupeKey.activityEnd.inj hkey
    exact ⟨rfl, h.1, h.2, rfl⟩
  notRetired := fun _ _ _ hkey => nomatch hkey

/-- The ends of a submission are moved or filed one after another. -/
theorem endRunningActivities (hbelow : JobsBelow db) {ends : List NewJob}
    (hends : ∀ new ∈ ends, new.Fits) : db.Sides (db.endRunningActivities now ends) := by
  unfold Db.endRunningActivities
  induction ends generalizing db with
  | nil => exact refl hbelow
  | cons new rest ih =>
    have hmoved : db.Sides (db.modifyJobs fun _ => Db.accelerateEnd now new) :=
      modifyJobs hbelow fun _ _ _ => PushJob.accelerateEnd_side new
    have hfiled : db.Sides ((db.modifyJobs fun _ => Db.accelerateEnd now new).fileJob now new) :=
      hmoved.trans (fileJob hmoved.below (hends new List.mem_cons_self))
    exact hfiled.trans (ih hfiled.below fun n hn => hends n (List.mem_cons_of_mem _ hn))

theorem cancelForSubmitted (hbelow : JobsBelow db) (userId userId' : UserId)
    (ids : List MoodleId) (skip : JobId → Bool) {ends : List RunningActivity}
    (hends : ends.all (·.fits) = true) :
    db.Sides (db.cancelForSubmitted userId ids skip now (ends.map (endJob userId' now))) := by
  have hcancelled : db.Sides (db.cancelPendingReminders userId ids skip now) :=
    cancelPending hbelow _
  refine hcancelled.trans (endRunningActivities hcancelled.below fun new hnew => ?_)
  obtain ⟨activity, hactivity, rfl⟩ := List.mem_map.mp hnew
  exact endJob_fits userId' now (List.all_eq_true.mp hends activity hactivity)

theorem scanReminders (hbelow : JobsBelow db) (channel : Channel)
    (validKeys : List (UserId × DedupeKey)) {toFile : List NewJob} (skip : JobId → Bool)
    (hfile : (toFile.all fun new => !new.dedupeKey.ofEnd) = true) :
    db.Sides (db.scanReminders channel validKeys toFile skip now) := by
  have hcancelled : db.Sides (db.cancelPending now (isUnwanted channel validKeys skip)) :=
    cancelPending hbelow _
  refine hcancelled.trans (fileJobs hcancelled.below fun new hnew => .of_not_ofEnd ?_)
  simpa using List.all_eq_true.mp hfile new hnew

/-- The jobs a schedule's sync looks at have a start's key. -/
theorem not_ofEnd_of_isScheduled {userId : UserId} {deviceId : DeviceId} {skip : JobId → Bool}
    {k : JobId} {job : PushJob} (h : isScheduled userId deviceId skip k job = true) :
    job.dedupeKey.ofEnd = false := by
  simp only [isScheduled, Bool.and_eq_true] at h
  have hkey := h.2
  unfold DedupeKey.scheduledFor at hkey
  split at hkey
  next heq => rw [heq]; rfl
  next => cases hkey

theorem syncSchedule (hbelow : JobsBelow db) (userId : UserId) (deviceId : DeviceId)
    (events : List ScheduleEvent) (skip : JobId → Bool) :
    db.Sides (db.syncSchedule userId deviceId events skip now) := by
  have hcancelled : db.Sides (db.cancelPending now (isReplaced userId deviceId events skip now)) :=
    cancelPending hbelow _
  have hkept := hcancelled.trans (modifyJobs (f := keptRow userId deviceId events skip)
    hcancelled.below fun k job _ => ?_)
  · refine hkept.trans (fileJobs hkept.below fun new hnew => ?_)
    obtain ⟨e, -, rfl⟩ := List.mem_map.mp hnew
    exact .of_not_ofEnd rfl
  · unfold keptRow
    split
    next hscheduled =>
      cases incoming deviceId events job.dedupeKey with
      | none => exact .refl job
      | some e => exact PushJob.reschedule_side e (not_ofEnd_of_isScheduled hscheduled.2)
    next => exact .refl job

theorem crashJob (hbelow : JobsBelow db) (cfg : Settings) (j : JobId) :
    db.Sides (db.crashJob cfg j now) := by
  refine updateJob hbelow j fun job _ => ?_
  split
  next hprocessing => exact PushJob.crash_side cfg hprocessing
  next => exact .refl job

theorem pruneTerminal (hbelow : JobsBelow db) (old : JobId → Bool) :
    db.Sides (db.pruneTerminal old) := by
  refine of_rows hbelow rfl fun j job' hjob' => ?_
  rw [Db.pruneTerminal, Table.get_deleteWhere] at hjob'
  exact ⟨job', (Option.filter_eq_some_iff.mp hjob').1, .refl job'⟩

end Db.Sides

/-- The transactions of the pipeline's machine beside the rounds and the registers. -/
theorem sides_step {cfg : Settings} {db db' : Db} {l : Label} (hbelow : JobsBelow db)
    (hstep : step cfg db l = some db') (hplain : l.plain = true) : db.Sides db' := by
  cases step_cases hstep with
  | startTick | check | endTick => exact .of_eq hbelow rfl rfl
  | @recoverStale _ _ job hjob hprocessing =>
    refine .updateJob hbelow _ fun job' hjob' => ?_
    obtain rfl : job = job' := Option.some.inj (hjob.symm.trans hjob')
    exact PushJob.recoverStale_side cfg hprocessing
  | @claim _ _ _ tick _ _ _ _ _ hclaimable =>
    refine (Db.Sides.modifyJobs hbelow fun k job hjob => ?_).withTicks _
    split
    next hpicked =>
      -- A claim takes due jobs only, which wait.
      have hwaits := Db.waits_of_claimable (hclaimable k (List.contains_iff_mem.mp hpicked)) hjob
      exact PushJob.claim_side hwaits tick.workerId
    next => exact .refl job
  | release =>
    refine (Db.Sides.modifyJobs hbelow fun k job _ => ?_).withTicks _
    unfold Db.releasedRow
    split
    next hheld => exact PushJob.release_side hheld.2.1
    next => exact .refl job
  | crash => exact (Db.Sides.crashJob hbelow cfg _).withTicks _
  | scanAssignmentReminders | scanCourseReminders => exact .scanReminders hbelow _ _ _ hplain
  | syncSchedule => exact .syncSchedule hbelow _ _ _ _
  | cancelSchedule => exact .cancelPending hbelow _
  | fileJobs =>
    refine .fileJobs hbelow fun new hnew => .of_not_ofEnd ?_
    simpa using List.all_eq_true.mp hplain new hnew
  | ride => exact .updateJob hbelow _ fun _ _ => PushJob.rideRow_side _
  | cancelPendingDeliveriesForDevice =>
    exact .modifyJobs hbelow fun _ _ _ => PushJob.syncedRow_side _ _
  | pruneTerminal => exact .pruneTerminal hbelow _
  | process | registerLiveActivity | cancelForSubmitted | deleteDevice => cases hplain

/-- The transaction of a job: its own row, then what a submission it has found brings. -/
theorem process_step {cfg : Settings} {db db' : Db} {t : TickId} {now : Time} {round : Round}
    {skip : JobId → Bool} {ends : List RunningActivity} {userId : UserId} {j : JobId}
    {job : PushJob} (hbelow : JobsBelow db) (hends : ends.all (·.fits) = true)
    (hstep : step cfg db (.process t now round skip (ends.map (endJob userId now))) = some db')
    (hhead : db.head t = some j) (hjob : db.jobs.get j = some job) :
    ∃ workerId check,
      ((job.status = .processing ∧ job.lockedBy = some workerId) →
        db.entering cfg t now round = (job.delivering cfg now check round).map (j, ·)) ∧
      (db.updateJob j fun _ => (job.process cfg workerId now check round).1).Sides db' := by
  cases step_cases hstep with
  | @process _ _ _ _ _ tick c _ check htick hbatch hcheck =>
    obtain rfl : c.jobId = j := by simpa [Db.head, htick, hbatch] using hhead
    refine ⟨tick.workerId, check, fun hclaimed => ?_, ?_⟩
    · rw [Db.entering, processed_eq htick hbatch hcheck, hjob, Option.bind_some, if_pos hclaimed]
      rfl
    · refine Db.Sides.withTicks ?_ _
      unfold Db.processJob
      rw [hjob]
      have hupdated := Db.jobsBelow_modifyJobs hbelow fun k row =>
        if k = c.jobId then (job.process cfg tick.workerId now check round).1 else row
      dsimp only
      split
      · exact .cancelForSubmitted hupdated _ _ _ _ hends
      · exact .refl hupdated

end TigerDuck.Push
