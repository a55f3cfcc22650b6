import TigerDuck.Push.HeldJobs
import TigerDuck.Push.SentJobs

/-!
# The deliveries of a job

What a write makes of a job's deliveries and of its attempts: none is lost, one that is no
longer pending keeps its status, and neither the job nor a delivery is tried more often than
its maximum allows.

## Main results

- `Write.evolve`, `Write.active`: every write of a job's row keeps to this.
- `PushJob.deliverRound_settled`: the status a round settles its job with.
-/

namespace TigerDuck.Push

/-- A delivery tried no more often than its maximum, and less often while it is pending. -/
structure PushDelivery.Bounded (d : PushDelivery) : Prop where
  tried : d.attempts ≤ d.maxAttempts
  left : d.status = .pending → d.attempts < d.maxAttempts

/-- A delivery as a write leaves it. -/
structure PushDelivery.Follows (d d' : PushDelivery) : Prop where
  token : d'.token = d.token
  maxAttempts : d'.maxAttempts = d.maxAttempts
  status : d.status ≠ .pending → d'.status = d.status
  bounded : d.Bounded → d'.Bounded

/-- The deliveries of a job as a write leaves them. -/
structure Evolve (ds ds' : List PushDelivery) : Prop where
  kept : ∀ d ∈ ds, ∃ d' ∈ ds', d.Follows d'
  tokens : (ds.map (·.token)).Nodup → (ds'.map (·.token)).Nodup
  bounded : (∀ d ∈ ds, d.Bounded) → ∀ d' ∈ ds', d'.Bounded

/-- An unsettled job has an attempt left. -/
def PushJob.Active (job : PushJob) : Prop :=
  job.status = .pending ∨ job.status = .processing → job.attempts < job.maxAttempts

/-- A job a round has settled: nothing of it is pending, and its status says what was sent and
what failed. -/
structure PushJob.Settled (job : PushJob) : Prop where
  nonePending : ∀ d ∈ job.deliveries, d.status ≠ .pending
  sent : job.status = .sent ↔
    (∃ d ∈ job.deliveries, d.status = .sent) ∧ ¬ ∃ d ∈ job.deliveries, d.status = .failed
  partialFailed : job.status = .partialFailed ↔
    (∃ d ∈ job.deliveries, d.status = .sent) ∧ ∃ d ∈ job.deliveries, d.status = .failed
  failed : job.status = .failed ↔ ¬ ∃ d ∈ job.deliveries, d.status = .sent

namespace PushDelivery.Follows

variable {d d' d'' : PushDelivery}

theorem refl (d : PushDelivery) : d.Follows d := ⟨rfl, rfl, fun _ => rfl, id⟩

theorem trans (h : d.Follows d') (h' : d'.Follows d'') : d.Follows d'' where
  token := h'.token.trans h.token
  maxAttempts := h'.maxAttempts.trans h.maxAttempts
  status := fun hd => (h'.status (by rwa [h.status hd])).trans (h.status hd)
  bounded := fun hd => h'.bounded (h.bounded hd)

/-- A pending delivery may get any status while its attempts stay bounded. -/
theorem of_pending (hpending : d.status = .pending) (htoken : d'.token = d.token)
    (hmax : d'.maxAttempts = d.maxAttempts) (hbounded : d.Bounded → d'.Bounded) : d.Follows d' :=
  ⟨htoken, hmax, fun hd => absurd hpending hd, hbounded⟩

theorem skipPending (code : String) (d : PushDelivery) :
    d.Follows (PushJob.skipPending code d) := by
  unfold PushJob.skipPending
  split
  next hpending => exact of_pending hpending rfl rfl fun h => ⟨h.tried, nofun⟩
  next => exact refl d

/-- `_send_one` spends an attempt a pending delivery has left. -/
theorem sendOne (cfg : Settings) (now : Time) (result : SendResult) (hpending : d.status = .pending) :
    d.Follows (PushJob.sendOne cfg now result d) := by
  refine of_pending hpending ?_ ?_ fun h => ?_
  · unfold PushJob.sendOne
    split <;> try rfl
    split <;> rfl
  · unfold PushJob.sendOne
    split <;> try rfl
    split <;> rfl
  · have hleft : d.attempts + 1 ≤ d.maxAttempts := h.left hpending
    unfold PushJob.sendOne
    split
    · exact ⟨h.tried, nofun⟩
    · exact ⟨h.tried, nofun⟩
    · exact ⟨hleft, nofun⟩
    · exact ⟨hleft, nofun⟩
    · split
      next => exact ⟨hleft, nofun⟩
      next hmore => exact ⟨hleft, fun _ => Nat.lt_of_not_le hmore⟩

theorem exhaust (d : PushDelivery) : d.Follows (PushJob.exhaust d) := by
  unfold PushJob.exhaust
  split
  next hpending => exact of_pending hpending rfl rfl fun h => ⟨h.tried, nofun⟩
  next => exact refl d

end PushDelivery.Follows

namespace Evolve

variable {ds ds' ds'' : List PushDelivery}

theorem refl (ds : List PushDelivery) : Evolve ds ds := ⟨fun d hd => ⟨d, hd, .refl d⟩, id, id⟩

theorem of_eq (h : ds' = ds) : Evolve ds ds' := h ▸ refl ds

theorem trans (h : Evolve ds ds') (h' : Evolve ds' ds'') : Evolve ds ds'' where
  kept := fun d hd => by
    obtain ⟨d', hd', hfollows⟩ := h.kept d hd
    obtain ⟨d'', hd'', hfollows'⟩ := h'.kept d' hd'
    exact ⟨d'', hd'', hfollows.trans hfollows'⟩
  tokens := fun hds => h'.tokens (h.tokens hds)
  bounded := fun hds => h'.bounded (h.bounded hds)

/-- Each delivery is written by itself. -/
theorem map {f : PushDelivery → PushDelivery} (hf : ∀ d, PushDelivery.Follows d (f d)) :
    Evolve ds (ds.map f) where
  kept := fun d hd => ⟨f d, List.mem_map_of_mem hd, hf d⟩
  tokens := fun hds => by
    rw [List.map_map]
    have hsame : ((·.token) ∘ f : PushDelivery → TokenKey) = (·.token) := funext fun d => (hf d).token
    rwa [hsame]
  bounded := fun hds d' hd' => by
    obtain ⟨d, hd, rfl⟩ := List.mem_map.mp hd'
    exact (hf d).bounded (hds d hd)

/-- A delivery for a token that has none yet. -/
theorem concat {d : PushDelivery} (hnew : ∀ d' ∈ ds, d'.token ≠ d.token) (hd : d.Bounded) :
    Evolve ds (ds ++ [d]) where
  kept := fun d' hd' => ⟨d', List.mem_append_left _ hd', .refl d'⟩
  tokens := fun hds => by
    rw [List.map_append, List.map_singleton, List.nodup_append]
    refine ⟨hds, List.nodup_singleton _, fun token htoken token' htoken' => ?_⟩
    obtain ⟨d', hd', rfl⟩ := List.mem_map.mp htoken
    rw [List.mem_singleton.mp htoken']
    exact hnew d' hd'
  bounded := fun hds d' hd' => by
    rcases List.mem_append.mp hd' with hd' | hd'
    · exact hds d' hd'
    · exact List.mem_singleton.mp hd' ▸ hd

end Evolve

namespace PushJob

variable {cfg : Settings} {job job' : PushJob} {now : Time} {round : Round}

theorem newDelivery_bounded (now : Time) (row : TokenRow) : (newDelivery now row).Bounded :=
  ⟨Nat.zero_le _, fun _ => Nat.succ_pos _⟩

/-- New deliveries come after the old ones, one for each token that had none. -/
theorem insertDeliveries_evolve (job : PushJob) (now : Time) (rows : List TokenRow) :
    Evolve job.deliveries (job.insertDeliveries now rows).deliveries := by
  unfold insertDeliveries
  dsimp only
  generalize job.deliveries = ds
  induction rows generalizing ds with
  | nil => exact .refl ds
  | cons row rest ih =>
    rw [List.foldl_cons]
    refine Evolve.trans ?_ (ih _)
    split
    next => exact .refl ds
    next hnone =>
      refine .concat (fun d hd htoken => hnone ?_) (newDelivery_bounded now row)
      exact List.any_eq_true.mpr ⟨d, hd, decide_eq_true htoken⟩

/-! ### Holding a job back -/

/-- A job held back before its round: its deliveries and its attempts are as they were. -/
structure Keeps (job held : PushJob) : Prop where
  deliveries : held.deliveries = job.deliveries
  attempts : held.attempts = job.attempts
  maxAttempts : held.maxAttempts = job.maxAttempts

theorem heldBack_keeps (cfg : Settings) (job : PushJob) (now : Time) (verdict : Verdict) :
    job.Keeps (job.heldBack cfg now verdict) := by
  cases verdict with
  | send => exact ⟨rfl, rfl, rfl⟩
  | submitted => exact ⟨rfl, rfl, rfl⟩
  | gone => exact ⟨rfl, rfl, rfl⟩
  | unverified =>
    unfold heldBack
    dsimp only
    split <;> exact ⟨rfl, rfl, rfl⟩

/-- What `_materialize` leaves: the deliveries grow, the attempts stay, and a job whose round
goes on is otherwise as it was. -/
structure Materialized (job : PushJob) (r : PushJob × Bool) : Prop where
  evolve : Evolve job.deliveries r.1.deliveries
  attempts : r.1.attempts = job.attempts
  maxAttempts : r.1.maxAttempts = job.maxAttempts
  goes : r.2 = true → ∃ new, r.1 = { job with deliveries := job.deliveries ++ new }

theorem Held.materialized (h : job.Held now job') : job.Materialized (job', false) := by
  cases h with
  | cancelled => exact ⟨.refl _, rfl, rfl, nofun⟩
  | skipped => exact ⟨.map (PushDelivery.Follows.skipPending _), rfl, rfl, nofun⟩
  | failed => exact ⟨.refl _, rfl, rfl, nofun⟩
  | putBack => exact ⟨.refl _, rfl, rfl, nofun⟩

theorem insertDeliveries_append (job : PushJob) (now : Time) (rows : List TokenRow) :
    ∃ new, job.insertDeliveries now rows = { job with deliveries := job.deliveries ++ new } := by
  unfold insertDeliveries
  generalize job.deliveries = ds
  suffices happend : ∃ new, rows.foldl (fun deliveries row =>
      if deliveries.any fun d => d.token = row.token then deliveries
      else deliveries ++ [newDelivery now row]) ds = ds ++ new by
    obtain ⟨new, hnew⟩ := happend
    exact ⟨new, by rw [hnew]⟩
  induction rows generalizing ds with
  | nil => exact ⟨[], (List.append_nil ds).symm⟩
  | cons row rest ih =>
    rw [List.foldl_cons]
    split
    · exact ih ds
    · obtain ⟨new, hnew⟩ := ih (ds ++ [newDelivery now row])
      exact ⟨[newDelivery now row] ++ new, by rw [hnew, List.append_assoc]⟩

theorem materialize_materialized (cfg : Settings) (job : PushJob) (now : Time) (round : Round) :
    job.Materialized (job.materialize cfg now round) := by
  rcases materialize_cases cfg job now round with ⟨job', hheld, heq⟩ | ⟨rows, heq⟩
  · rw [heq]
    exact hheld.materialized
  · rw [heq]
    exact ⟨insertDeliveries_evolve job now rows, rfl, rfl, fun _ => insertDeliveries_append job now rows⟩

/-! ### The round -/

theorem sendOne_deviceId (result : SendResult) (d : PushDelivery) :
    (sendOne cfg now result d).deviceId = d.deviceId := by
  unfold sendOne
  split <;> try rfl
  split <;> rfl

theorem exhaust_deviceId (d : PushDelivery) : (exhaust d).deviceId = d.deviceId := by
  unfold exhaust
  split <;> rfl

theorem sendDue_eq_map (cfg : Settings) (job : PushJob) (now : Time) (round : Round) :
    ∃ f, (∀ d, PushDelivery.Follows d (f d) ∧ (f d).deviceId = d.deviceId) ∧
      job.sendDue cfg now round = job.deliveries.map f := by
  refine ⟨_, fun d => ?_, rfl⟩
  split
  next hdue =>
    simp only [dueDelivery, Bool.and_eq_true, decide_eq_true_eq] at hdue
    exact ⟨.sendOne cfg now _ hdue.1, sendOne_deviceId _ d⟩
  next => exact ⟨.refl d, rfl⟩

theorem aggregate_deliveries (ds : List PushDelivery) :
    (job.aggregate now ds).deliveries = ds := by
  unfold aggregate
  dsimp only
  split
  · rfl
  · split <;> rfl

theorem aggregate_status (job : PushJob) (now : Time) (ds : List PushDelivery) :
    (job.aggregate now ds).status =
      if ∃ d ∈ ds, d.status = .sent then
        if ∃ d ∈ ds, d.status = .failed then .partialFailed else .sent
      else .failed := by
  have hany (status : PushDeliveryStatus) :
      (ds.any fun d => decide (d.status = status)) = decide (∃ d ∈ ds, d.status = status) := by
    rw [Bool.eq_iff_iff, List.any_eq_true, decide_eq_true_eq]
    simp only [decide_eq_true_eq]
  unfold aggregate
  dsimp only
  rw [hany, hany]
  by_cases hsent : ∃ d ∈ ds, d.status = .sent
  · by_cases hfailed : ∃ d ∈ ds, d.status = .failed <;> simp [hsent, hfailed]
  · simp [hsent]

/-- The status a job is settled with follows from what its deliveries came to. -/
theorem aggregate_settled {ds : List PushDelivery} (hnone : ∀ d ∈ ds, d.status ≠ .pending) :
    (job.aggregate now ds).Settled := by
  have hstatus := aggregate_status job now ds
  constructor <;> rw [aggregate_deliveries]
  · exact hnone
  all_goals
    rw [hstatus]
    by_cases hsent : ∃ d ∈ ds, d.status = .sent
    · by_cases hfailed : ∃ d ∈ ds, d.status = .failed <;> simp only [hsent, hfailed] <;> simp
    · simp only [hsent]
      simp

/-- How a round ends: with nothing to deliver, with another round to come, or settled. -/
inductive RoundEnd (cfg : Settings) (job : PushJob) (now : Time) (round : Round) : PushJob → Prop
  | noTokens (h : job.deliveries = []) :
      RoundEnd cfg job now round (job.settleFailed "no_active_tokens")
  | again {job' : PushJob} (hstatus : job'.status = .pending)
      (hdeliveries : job'.deliveries = job.sendDue cfg now round)
      (hmax : job'.maxAttempts = job.maxAttempts)
      (hattempts : job'.attempts = job.attempts ∨ job'.attempts < job.maxAttempts) :
      RoundEnd cfg job now round job'
  | settled (ds : List PushDelivery) (hnone : ∀ d ∈ ds, d.status ≠ .pending)
      (hds : ds = job.sendDue cfg now round ∨ ds = (job.sendDue cfg now round).map exhaust) :
      RoundEnd cfg job now round (job.aggregate now ds)

theorem exhaust_status (d : PushDelivery) : (exhaust d).status ≠ .pending := by
  unfold exhaust
  split
  · exact nofun
  next hsettled => exact hsettled

theorem deliverRound_ends (cfg : Settings) (job : PushJob) (now : Time) (round : Round) :
    RoundEnd cfg job now round (job.deliverRound cfg now round) := by
  unfold deliverRound
  split
  next hnil => exact .noTokens hnil
  next =>
    dsimp only
    split
    next =>
      split
      next => exact .again rfl rfl rfl (.inl rfl)
      next =>
        split
        next hleft => exact .again rfl rfl rfl (.inr hleft)
        next =>
          refine .settled _ (fun d hd => ?_) (.inr rfl)
          obtain ⟨d', _, rfl⟩ := List.mem_map.mp hd
          exact exhaust_status d'
    next hnone =>
      refine .settled _ (fun d hd hpending => hnone ?_) (.inl rfl)
      exact List.any_eq_true.mpr ⟨d, hd, decide_eq_true hpending⟩

/-- A round writes each delivery by itself. -/
theorem deliverRound_map (cfg : Settings) (job : PushJob) (now : Time) (round : Round) :
    ∃ f, (∀ d, PushDelivery.Follows d (f d) ∧ (f d).deviceId = d.deviceId) ∧
      (job.deliverRound cfg now round).deliveries = job.deliveries.map f := by
  obtain ⟨f, hf, hsend⟩ := sendDue_eq_map cfg job now round
  have hends := deliverRound_ends cfg job now round
  generalize job.deliverRound cfg now round = job' at hends ⊢
  cases hends with
  | noTokens => exact ⟨id, fun d => ⟨.refl d, rfl⟩, (List.map_id _).symm⟩
  | again _ hdeliveries => exact ⟨f, hf, hdeliveries.trans hsend⟩
  | settled ds _ hds =>
    rw [aggregate_deliveries]
    rcases hds with rfl | rfl
    · exact ⟨f, hf, hsend⟩
    · refine ⟨exhaust ∘ f, fun d => ⟨(hf d).1.trans (.exhaust _), ?_⟩, by rw [hsend, List.map_map]⟩
      exact (exhaust_deviceId (f d)).trans (hf d).2

theorem deliverRound_evolve : Evolve job.deliveries (job.deliverRound cfg now round).deliveries := by
  obtain ⟨f, hf, hmap⟩ := deliverRound_map cfg job now round
  rw [hmap]
  exact .map fun d => (hf d).1

/-- **What a round settles its job with**: nothing is pending, and the status says whether
something was sent and whether something failed. -/
theorem deliverRound_settled (h : (job.deliverRound cfg now round).status ≠ .pending) :
    (job.deliverRound cfg now round).Settled := by
  have hends := deliverRound_ends cfg job now round
  generalize job.deliverRound cfg now round = job' at hends h ⊢
  cases hends with
  | noTokens hnil =>
    have hdeliveries : (job.settleFailed "no_active_tokens").deliveries = [] := hnil
    constructor <;> rw [hdeliveries] <;> simp [settleFailed]
  | again hstatus => exact absurd hstatus h
  | settled ds hnone => exact aggregate_settled hnone

/-- A job a round sends back has an attempt left. -/
theorem deliverRound_active (h : job.attempts < job.maxAttempts) :
    (job.deliverRound cfg now round).Active := by
  have hends := deliverRound_ends cfg job now round
  generalize job.deliverRound cfg now round = job' at hends ⊢
  cases hends with
  | noTokens => rintro (hstatus | hstatus) <;> cases hstatus
  | again _ _ hmax hattempts =>
    intro _
    rcases hattempts with hattempts | hattempts
    · rw [hattempts, hmax]
      exact h
    · rw [hmax]
      exact hattempts
  | settled ds =>
    intro hstatus
    rw [aggregate_status] at hstatus
    rcases hstatus with hstatus | hstatus <;> (split at hstatus <;> try split at hstatus) <;>
      cases hstatus

/-! ### Every write -/

/-- What the transaction of a claimed job may do with it: leave it when the claim is gone, hold
it back or hand it back with its deliveries as they are, or carry its round out. -/
theorem process_cases (cfg : Settings) (job : PushJob) (workerId : String) (now : Time)
    (check : Option PresendCheck) (round : Round) :
    (job.process cfg workerId now check round).1 = job ∨
      job.status = .processing ∧ (job.Keeps (job.process cfg workerId now check round).1 ∨
        (job.process cfg workerId now check round).1 = job.carryOut cfg now round) := by
  unfold process
  split
  next hclaimed =>
    refine .inr ⟨hclaimed.1, ?_⟩
    dsimp only
    split
    next check =>
      split
      next => exact .inr rfl
      next => exact .inl (heldBack_keeps cfg job now .submitted)
      next => exact .inl (heldBack_keeps cfg job now _)
    next =>
      split
      next => exact .inl ⟨rfl, rfl, rfl⟩
      next => exact .inr rfl
  next => exact .inl rfl

theorem carryOut_evolve : Evolve job.deliveries (job.carryOut cfg now round).deliveries := by
  have hmaterialize := materialize_materialized cfg job now round
  unfold carryOut
  dsimp only
  split
  · exact hmaterialize.evolve.trans deliverRound_evolve
  · exact hmaterialize.evolve

theorem carryOut_active (h : job.attempts < job.maxAttempts) :
    (job.carryOut cfg now round).Active := by
  have hmaterialize := materialize_materialized cfg job now round
  have hleft : (job.materialize cfg now round).1.attempts <
      (job.materialize cfg now round).1.maxAttempts := by
    rw [hmaterialize.attempts, hmaterialize.maxAttempts]
    exact h
  unfold carryOut
  dsimp only
  split
  · exact deliverRound_active hleft
  · exact fun _ => hleft

end PushJob

namespace Write

variable {cfg : Settings} {job job' : PushJob}

theorem syncedRow_evolve (userId : UserId) (deviceId : DeviceId) (job : PushJob) :
    Evolve job.deliveries (Db.syncedRow userId deviceId job).deliveries := by
  unfold Db.syncedRow
  split
  · refine .map fun d => ?_
    unfold Db.syncedDelivery
    split
    · exact .skipPending _ d
    · exact .refl d
  · exact .refl _

theorem withoutDevice_evolve (deviceId : DeviceId) (job : PushJob) :
    Evolve job.deliveries (Db.withoutDevice deviceId job).deliveries :=
  .map fun _ => ⟨rfl, rfl, fun _ => rfl, fun h => ⟨h.tried, h.left⟩⟩

/-- Every write keeps what has become of the deliveries. -/
theorem evolve (h : Write cfg job job') : Evolve job.deliveries job'.deliveries := by
  cases h with
  | claim | release | cancel | reschedule => exact .refl _
  | recoverStale now =>
    refine .of_eq ?_
    unfold PushJob.recoverStale
    dsimp only
    split <;> rfl
  | crash now =>
    refine .of_eq ?_
    unfold PushJob.crash
    dsimp only
    split <;> rfl
  | process workerId now check round =>
    rcases PushJob.process_cases cfg job workerId now check round with hsame | ⟨_, hkeeps | hround⟩
    · rw [hsame]
      exact .refl _
    · exact .of_eq hkeeps.deliveries
    · rw [hround]
      exact PushJob.carryOut_evolve
  | accelerateEnd now new =>
    refine .of_eq ?_
    unfold Db.accelerateEnd
    split <;> rfl
  | register new k =>
    refine .of_eq ?_
    unfold Db.registeredRow
    split
    · rfl
    · split
      · rfl
      · split <;> rfl
  | ride sourceDeviceId =>
    refine .of_eq ?_
    unfold Db.rideRow
    split <;> rfl
  | synced userId deviceId => exact syncedRow_evolve userId deviceId job
  | withoutDevice deviceId => exact withoutDevice_evolve deviceId job

/-- Every write leaves an unsettled job an attempt. -/
theorem active (h : Write cfg job job') (hjob : job.Active) : job'.Active := by
  cases h with
  | claim workerId now hpending => exact fun _ => hjob (.inl hpending)
  | release hprocessing => exact fun _ => hjob (.inr hprocessing)
  | cancel now => rintro (hstatus | hstatus) <;> cases hstatus
  | reschedule e hpending => exact fun _ => hjob (.inl hpending)
  | recoverStale now =>
    unfold PushJob.recoverStale
    dsimp only
    split
    · rintro (hstatus | hstatus) <;> cases hstatus
    next hleft => exact fun _ => Nat.lt_of_not_le hleft
  | crash now =>
    unfold PushJob.crash
    dsimp only
    split
    · rintro (hstatus | hstatus) <;> cases hstatus
    next hleft => exact fun _ => Nat.lt_of_not_le hleft
  | process workerId now check round =>
    rcases PushJob.process_cases cfg job workerId now check round with
      hsame | ⟨hprocessing, hkeeps | hround⟩
    · rw [hsame]
      exact hjob
    · intro _
      rw [hkeeps.attempts, hkeeps.maxAttempts]
      exact hjob (.inr hprocessing)
    · rw [hround]
      exact PushJob.carryOut_active (hjob (.inr hprocessing))
  | accelerateEnd now new =>
    unfold Db.accelerateEnd
    split
    next hwaiting => exact fun _ => hjob hwaiting.2.2
    next => exact hjob
  | register new k =>
    unfold Db.registeredRow
    split
    · exact hjob
    · split
      next hsent => exact fun hstatus => hjob hstatus
      next =>
        split
        next hwaiting => exact fun _ => hjob hwaiting
        next => exact hjob
  | ride sourceDeviceId =>
    unfold Db.rideRow
    split
    · exact hjob
    · exact hjob
  | synced userId deviceId =>
    unfold Db.syncedRow
    split
    · exact hjob
    · exact hjob
  | withoutDevice deviceId => exact hjob

end Write

namespace Writes

variable {cfg : Settings} {job job' : PushJob}

theorem evolve (h : Writes cfg job job') : Evolve job.deliveries job'.deliveries := by
  induction h with
  | refl => exact .refl _
  | tail _ hwrite ih => exact ih.trans hwrite.evolve

theorem active (h : Writes cfg job job') (hjob : job.Active) : job'.Active := by
  induction h with
  | refl => exact hjob
  | tail _ hwrite ih => exact hwrite.active ih

end Writes

end TigerDuck.Push
