import TigerDuck.Push.Rounds
import TigerDuck.Transition.RowLock

/-!
# The states of deliveries and jobs

What holds of deliveries and jobs through any number of rounds, with crashes, stale recoveries,
releases and every other writer of the jobs in between.

A full sync skips the waiting deliveries to its device without asking for the job's lock, so it
can skip one that a round has read as pending already: the round then hands it over and writes
its own result over the skip.

## Main results

- `undisturbed_round`: a round with nothing in between is the transaction of `_process_job`.
- `settled_deliveries_stay`: in the runs without such a skip, what is sent, failed or skipped
  stays so and is not sent again, attempts stay within their maximum, and a round settles its
  job with the status its deliveries give.
- `skipped_delivery_is_sent`: a skipped delivery is sent.
-/

namespace TigerDuck.Push

open Relational Transition

/-! ### Rows but for their device -/

/-- A delivery but for its device, which the deletion of the device clears. -/
def PushDelivery.bare (d : PushDelivery) : PushDelivery := { d with deviceId := none }

theorem PushDelivery.eq_of_bare {d d' : PushDelivery} (h : d.bare = d'.bare)
    (hdevice : d.deviceId = d'.deviceId) : d = d' := by
  cases d
  cases d'
  cases hdevice
  simp only [PushDelivery.bare, PushDelivery.mk.injEq] at h
  obtain ⟨rfl, _, rfl, rfl, rfl, rfl, rfl, rfl⟩ := h
  rfl

theorem PushDelivery.Follows.of_bare {d d' : PushDelivery} (h : d.bare = d'.bare) :
    d.Follows d' := by
  simp only [PushDelivery.bare, PushDelivery.mk.injEq] at h
  obtain ⟨htoken, _, hstatus, hattempts, hmax, _⟩ := h
  refine ⟨htoken.symm, hmax.symm, fun _ => hstatus.symm, fun hd => ⟨?_, fun hpending => ?_⟩⟩
  · rw [← hattempts, ← hmax]
    exact hd.tried
  · rw [← hattempts, ← hmax]
    exact hd.left (hstatus.trans hpending)

/-- Rows that agree but for their devices, and maybe some more. -/
theorem Evolve.of_prefix {ds ds' : List PushDelivery}
    (h : ds.map (·.bare) <+: ds'.map (·.bare)) (htokens : (ds'.map (·.token)).Nodup)
    (hbounded : ∀ d ∈ ds', d.Bounded) : Evolve ds ds' where
  kept := fun d hd => by
    obtain ⟨d', hd', hbare⟩ := List.mem_map.mp (h.subset (List.mem_map_of_mem hd))
    exact ⟨d', hd', .of_bare hbare.symm⟩
  tokens := fun _ => htokens
  bounded := fun _ => hbounded

theorem map_token_of_bare {ds ds' : List PushDelivery} (h : ds.map (·.bare) = ds'.map (·.bare)) :
    ds.map (·.token) = ds'.map (·.token) := by
  have htoken (ds : List PushDelivery) : ds.map (·.token) = (ds.map (·.bare)).map (·.token) := by
    rw [List.map_map]
    rfl
  rw [htoken ds, htoken ds', h]

theorem Evolve.of_bare {ds ds' : List PushDelivery} (h : ds.map (·.bare) = ds'.map (·.bare)) :
    Evolve ds ds' where
  kept := fun d hd => by
    have hd' : d.bare ∈ ds'.map (·.bare) := h ▸ List.mem_map_of_mem hd
    obtain ⟨d', hd', hbare⟩ := List.mem_map.mp hd'
    exact ⟨d', hd', .of_bare hbare.symm⟩
  tokens := fun htokens => map_token_of_bare h ▸ htokens
  bounded := fun hbounded d' hd' => by
    have hd : d'.bare ∈ ds.map (·.bare) := h ▸ List.mem_map_of_mem hd'
    obtain ⟨d, hd, hbare⟩ := List.mem_map.mp hd
    exact (PushDelivery.Follows.of_bare hbare).bounded (hbounded d hd)

/-! ### The commit of a round -/

/-- A row that is as the round has read it gets the round's result. -/
theorem PushDelivery.written_bare {before after current : PushDelivery}
    (hread : current.bare = before.bare) (hfollows : before.Follows after) :
    (before.written after current).bare = after.bare := by
  have hfields := hread
  simp only [PushDelivery.bare, PushDelivery.mk.injEq] at hfields
  obtain ⟨htoken, _, hstatus, hattempts, hmax, hretry, hsent, hcode⟩ := hfields
  unfold PushDelivery.written PushDelivery.bare
  simp only [hstatus, hattempts, hretry, hsent, hcode, writeColumn_self, PushDelivery.mk.injEq,
    and_true, true_and]
  exact ⟨htoken.trans hfollows.token.symm, hmax.trans hfollows.maxAttempts.symm⟩

/-- The rows after the commit of a round that nothing has come between. -/
theorem writeBack_bare {f : PushDelivery → PushDelivery} (hf : ∀ d, PushDelivery.Follows d (f d))
    {before current : List PushDelivery}
    (hread : current.map (·.bare) <+: before.map (·.bare)) :
    (writeBack before (before.map f) current).map (·.bare) = (before.map f).map (·.bare) := by
  induction current generalizing before with
  | nil => cases before <;> rfl
  | cons c cs ih =>
    cases before with
    | nil =>
      rw [List.map_nil, List.prefix_nil] at hread
      cases hread
    | cons b bs =>
      rw [List.map_cons, List.map_cons, List.cons_prefix_cons] at hread
      rw [List.map_cons, writeBack, List.map_cons, List.map_cons, ih hread.2,
        PushDelivery.written_bare hread.1 (hf b)]

/-! ### The invariant -/

/-- A job whose deliveries are one per token and bounded, with an attempt left while it is
unsettled. -/
structure PushJob.Regular (job : PushJob) : Prop where
  tokens : (job.deliveries.map (·.token)).Nodup
  bounded : ∀ d ∈ job.deliveries, d.Bounded
  active : job.Active

theorem PushJob.Regular.writes {cfg : Settings} {job job' : PushJob} (h : job.Regular)
    (hwrites : Writes cfg job job') : job'.Regular :=
  ⟨hwrites.evolve.tokens h.tokens, hwrites.evolve.bounded h.bounded, hwrites.active h.active⟩

theorem NewJob.row_regular (new : NewJob) (now : Time) : (new.row now).Regular :=
  ⟨List.nodup_nil, fun _ hd => (nomatch hd), fun _ => Nat.succ_pos _⟩

/-- What a round has read still stands, but for the devices; its own new rows come last. -/
structure Reading.Sound (r : Reading) (row : PushJob) : Prop where
  rows : row.deliveries.map (·.bare) <+: r.job.deliveries.map (·.bare)
  tokens : (r.job.deliveries.map (·.token)).Nodup
  bounded : ∀ d ∈ r.job.deliveries, d.Bounded
  left : r.job.attempts < r.job.maxAttempts
  todo : ∀ d ∈ r.todo, d ∈ r.job.deliveries

/-- Whether the label is a full sync, which skips what waits for its device. -/
def RoundLabel.skips : RoundLabel → Bool
  | .transaction (.cancelPendingDeliveriesForDevice _ _) => true
  | _ => false

namespace Rounds

/-- Every job is regular and every round reads what stands. -/
structure Sound (s : Rounds) : Prop where
  below : JobsBelow s.db
  regular : ∀ j job, s.db.jobs.get j = some job → job.Regular
  reading : ∀ j r, s.reading j = some r → ∃ row, s.db.jobs.get j = some row ∧ r.Sound row

/-- What becomes of the jobs from one state to a later one. -/
structure Leads (s s' : Rounds) : Prop where
  nextJob : s.db.nextJob ≤ s'.db.nextJob
  rows : ∀ j job', s'.db.jobs.get j = some job' →
    (∃ job, s.db.jobs.get j = some job ∧ Evolve job.deliveries job'.deliveries) ∨
      s.db.nextJob ≤ j

/-- No full sync skips a delivery of a job whose round is under way. -/
def SparesRounds (s : Rounds) : RoundLabel → Prop
  | .transaction (.cancelPendingDeliveriesForDevice userId deviceId) =>
    ∀ j job, s.reading j ≠ none → s.db.jobs.get j = some job →
      Db.syncedRow userId deviceId job = job
  | _ => True

theorem Sound.initial : Sound Rounds.initial where
  below := fun _ hj => absurd rfl hj
  regular := fun _ _ hj => (nomatch hj)
  reading := fun _ _ hr => (nomatch hr)

theorem Leads.of_eq {s s' : Rounds} (h : s'.db = s.db) : s.Leads s' where
  nextJob := by rw [h]
  rows := fun j job' hjob' => .inl ⟨job', h ▸ hjob', .refl _⟩

theorem Leads.trans {s s' s'' : Rounds} (h : s.Leads s') (h' : s'.Leads s'') : s.Leads s'' where
  nextJob := Nat.le_trans h.nextJob h'.nextJob
  rows := fun j job'' hjob'' => by
    rcases h'.rows j job'' hjob'' with ⟨job', hjob', hevolve'⟩ | hnew
    · rcases h.rows j job' hjob' with ⟨job, hjob, hevolve⟩ | hnew
      · exact .inl ⟨job, hjob, hevolve.trans hevolve'⟩
      · exact .inr hnew
    · exact .inr (Nat.le_trans h.nextJob hnew)

end Rounds

/-! ### What a round has read -/

/-- The job a round begins with is the claimed job and some more deliveries, and its round is
what `_process_job` does. -/
theorem PushJob.delivering_cases {cfg : Settings} {job job' : PushJob} {workerId : String}
    {now : Time} {check : Option PresendCheck} {round : Round}
    (hclaimed : job.status = .processing ∧ job.lockedBy = some workerId)
    (h : job.delivering cfg now check round = some job') :
    (∃ new, job' = { job with deliveries := job.deliveries ++ new }) ∧
      Evolve job.deliveries job'.deliveries ∧
      job.process cfg workerId now check round = (job'.deliverRound cfg now round, none) := by
  have hmaterialized := materialize_materialized cfg job now round
  unfold delivering at h
  split at h
  next hgoesOn =>
    split at h
    next hgoes =>
      cases h
      rw [hgoes] at hmaterialized
      refine ⟨hmaterialized.goes rfl, hmaterialized.evolve, ?_⟩
      unfold process
      rw [if_pos hclaimed, hgoes]
      cases check with
      | none =>
        simp only [goesOn, Bool.not_eq_true'] at hgoesOn
        simp only [hgoesOn, if_true]
        rfl
      | some check =>
        simp only [goesOn, decide_eq_true_eq] at hgoesOn
        simp only [hgoesOn, if_true]
    next => cases h
  next => cases h

/-- The claim a tick enters a round with. -/
theorem Db.entering_cases {cfg : Settings} {db : Db} {t : TickId} {now : Time} {round : Round}
    {j : JobId} {job' : PushJob} (h : db.entering cfg t now round = some (j, job')) :
    ∃ tick c rest check job, db.ticks t = some tick ∧ tick.batch = c :: rest ∧ c.jobId = j ∧
      c.check.result = some check ∧ db.jobs.get j = some job ∧
      (job.status = .processing ∧ job.lockedBy = some tick.workerId) ∧
      job.delivering cfg now check round = some job' := by
  obtain ⟨⟨j', job, check⟩, hprocessed, hmap⟩ := Option.bind_eq_some_iff.mp h
  obtain ⟨_, hdelivering, heq⟩ := Option.map_eq_some_iff.mp hmap
  cases heq
  obtain ⟨tick, htick, hbatch⟩ := Option.bind_eq_some_iff.mp hprocessed
  obtain ⟨c, hhead, hcheck⟩ := Option.bind_eq_some_iff.mp hbatch
  obtain ⟨check', hresult, hrow⟩ := Option.bind_eq_some_iff.mp hcheck
  obtain ⟨job'', hjob, hclaim⟩ := Option.bind_eq_some_iff.mp hrow
  split at hclaim
  next hclaimed =>
    cases hclaim
    obtain ⟨rest, hrest⟩ := List.head?_eq_some_iff.mp hhead
    exact ⟨tick, c, rest, check, job, htick, hrest, rfl, hresult, hjob, hclaimed, hdelivering⟩
  next => cases hclaim

/-- What a round has read stands while the rows differ in their devices only. -/
theorem Reading.Sound.of_bare {r : Reading} {row row' : PushJob} (h : r.Sound row)
    (hrows : row'.deliveries.map (·.bare) = row.deliveries.map (·.bare)) : r.Sound row' :=
  { h with rows := hrows ▸ h.rows }

/-- The commit's row carries the round's results on. -/
theorem Reading.Sound.commitRow_bare {cfg : Settings} {r : Reading} {row : PushJob}
    (h : r.Sound row) : (r.commitRow cfg row).deliveries.map (·.bare) =
      (r.job.deliverRound cfg r.now r.round).deliveries.map (·.bare) := by
  obtain ⟨f, hf, hmap⟩ := PushJob.deliverRound_map cfg r.job r.now r.round
  unfold Reading.commitRow
  dsimp only
  rw [hmap]
  exact writeBack_bare (fun d => (hf d).1) h.rows

theorem Reading.Sound.commitRow_evolve {cfg : Settings} {r : Reading} {row : PushJob}
    (h : r.Sound row) : Evolve row.deliveries (r.commitRow cfg row).deliveries :=
  ((Evolve.of_prefix h.rows h.tokens h.bounded).trans PushJob.deliverRound_evolve).trans
    (.of_bare h.commitRow_bare.symm)

theorem Db.finish_jobs (db : Db) (t : TickId) (j : JobId) :
    (db.finish t j).jobs = db.jobs ∧ (db.finish t j).nextJob = db.nextJob := by
  unfold Db.finish
  split
  · exact ⟨rfl, rfl⟩
  · exact ⟨rfl, rfl⟩

theorem Db.get_updateJob (db : Db) (j k : JobId) (f : PushJob → PushJob) :
    (db.updateJob j f).jobs.get k = (db.jobs.get k).map fun job => if k = j then f job else job :=
  Table.get_modify ..

namespace Rounds

variable {cfg : Settings} {s s' : Rounds}

/-! ### The steps -/

/-- A transaction leaves a locked row as it is, or at most its deliveries' devices. -/
theorem locked_row {l : Label} {db' : Db} {j : JobId} {r : Reading} {row : PushJob}
    (hspares : s.SparesRounds (.transaction l)) (hstep : Push.step cfg s.db l = some db')
    (hunlocked : s.unlocked l db' = true) (hr : s.reading j = some r)
    (hrow : s.db.jobs.get j = some row) :
    ∃ row', db'.jobs.get j = some row' ∧
      row'.deliveries.map (·.bare) = row.deliveries.map (·.bare) := by
  have hkeep := List.all_eq_true.mp hunlocked j
    ((Table.mem_keys_iff s.db.jobs j).mpr (by rw [hrow]; rfl))
  rw [hr, Option.isNone_some, Bool.false_or] at hkeep
  by_cases hfree : l.lockFree = true
  · unfold Label.lockFree at hfree
    split at hfree
    next userId deviceId =>
      cases hstep
      refine ⟨row, ?_, rfl⟩
      rw [Db.modifyJobs, Table.get_modify, hrow, Option.map_some,
        hspares j row (by rw [hr]; exact Option.some_ne_none r) hrow]
    next deviceId =>
      cases hstep
      refine ⟨Db.withoutDevice deviceId row, ?_, ?_⟩
      · rw [Db.modifyJobs, Table.get_modify, hrow, Option.map_some]
      · unfold Db.withoutDevice
        dsimp only
        rw [List.map_map]
        rfl
    next => cases hfree
  · rw [if_neg hfree, decide_eq_true_eq, hrow] at hkeep
    exact ⟨row, hkeep, rfl⟩

theorem Sound.transaction {l : Label} {db' : Db} {raised : TickId → Bool} (h : s.Sound)
    (hspares : s.SparesRounds (.transaction l)) (hstep : Push.step cfg s.db l = some db')
    (hunlocked : s.unlocked l db' = true) : Sound { s with db := db', raised } where
  below := (leads_step hstep).below h.below
  regular := fun j job' hjob' => by
    rcases (leads_step hstep).rows j job' hjob' with ⟨job, hjob, hwrites⟩ | ⟨_, new, now, hwrites⟩
    · exact (h.regular j job hjob).writes hwrites
    · exact (new.row_regular now).writes hwrites
  reading := fun j r hr => by
    obtain ⟨row, hrow, hsound⟩ := h.reading j r hr
    obtain ⟨row', hrow', hbare⟩ := locked_row hspares hstep hunlocked hr hrow
    exact ⟨row', hrow', hsound.of_bare hbare⟩

theorem Leads.transaction {l : Label} {db' : Db} {raised : TickId → Bool}
    (hstep : Push.step cfg s.db l = some db') : s.Leads { s with db := db', raised } where
  nextJob := (leads_step hstep).nextJob
  rows := fun j job' hjob' => by
    rcases (leads_step hstep).rows j job' hjob' with ⟨job, hjob, hwrites⟩ | ⟨hnew, _⟩
    · exact .inl ⟨job, hjob, hwrites.evolve⟩
    · exact .inr hnew

/-- A round begins with what the job's row and its new deliveries are. -/
theorem Sound.read {t : TickId} {now : Time} {round : Round} {j : JobId} {job : PushJob}
    (h : s.Sound) (hentering : s.db.entering cfg t now round = some (j, job)) :
    Sound { s with
      reading := Function.update s.reading j (some ⟨t, job, now, round, job.deliveries⟩) } := by
  refine ⟨h.below, h.regular, fun k r hupdate => ?_⟩
  rcases update_cases hupdate with ⟨rfl, hr⟩ | ⟨_, hr⟩
  · cases hr
    obtain ⟨_, _, _, _, row, _, _, _, _, hrow, hclaimed, hdelivering⟩ := Db.entering_cases hentering
    obtain ⟨⟨new, rfl⟩, hevolve, _⟩ := PushJob.delivering_cases hclaimed hdelivering
    have hregular := h.regular k row hrow
    refine ⟨row, hrow, ?_, hevolve.tokens hregular.tokens, hevolve.bounded hregular.bounded,
      hregular.active (.inr hclaimed.1), fun _ => id⟩
    rw [List.map_append]
    exact List.prefix_append _ _
  · exact h.reading k r hr

/-- A round with fewer deliveries to go over reads what it did. -/
theorem Sound.send {j : JobId} {r : Reading} {d : PushDelivery} {todo : List PushDelivery}
    (h : s.Sound) (hr : s.reading j = some r) (htodo : r.todo = d :: todo) :
    Sound { s with reading := Function.update s.reading j (some { r with todo }) } := by
  refine ⟨h.below, h.regular, fun k r' hupdate => ?_⟩
  rcases update_cases hupdate with ⟨rfl, hr'⟩ | ⟨_, hr'⟩
  · cases hr'
    obtain ⟨row, hrow, hsound⟩ := h.reading k r hr
    refine ⟨row, hrow, { hsound with todo := fun d' hd' => hsound.todo d' ?_ }⟩
    rw [htodo]
    exact List.mem_cons_of_mem d hd'
  · exact h.reading k r' hr'

theorem Sound.endRound {j : JobId} {raised : TickId → Bool} (h : s.Sound) :
    Sound { s with reading := Function.update s.reading j none, raised } := by
  refine ⟨h.below, h.regular, fun k r hupdate => ?_⟩
  rcases update_cases hupdate with ⟨_, hr⟩ | ⟨_, hr⟩
  · cases hr
  · exact h.reading k r hr

theorem Sound.commit {j : JobId} {r : Reading} (h : s.Sound) (hr : s.reading j = some r) :
    Sound { s with
      db := (s.db.updateJob j (r.commitRow cfg)).finish r.tick j
      reading := Function.update s.reading j none } := by
  obtain ⟨row, hrow, hsound⟩ := h.reading j r hr
  obtain ⟨hjobs, hnext⟩ := Db.finish_jobs (s.db.updateJob j (r.commitRow cfg)) r.tick j
  refine ⟨?_, fun k job' hjob' => ?_, fun k r' hupdate => ?_⟩
  · unfold JobsBelow
    rw [hjobs, hnext]
    exact Db.jobsBelow_modifyJobs h.below _
  · rw [hjobs, Db.get_updateJob] at hjob'
    obtain ⟨job, hjob, rfl⟩ := Option.map_eq_some_iff.mp hjob'
    split
    next hk =>
      subst hk
      rw [hrow] at hjob
      cases hjob
      have hregular := h.regular k row hrow
      have hevolve : Evolve row.deliveries (r.commitRow cfg row).deliveries :=
        hsound.commitRow_evolve
      have hactive : (r.job.deliverRound cfg r.now r.round).Active :=
        PushJob.deliverRound_active hsound.left
      exact ⟨hevolve.tokens hregular.tokens, hevolve.bounded hregular.bounded, hactive⟩
    next => exact h.regular k job hjob
  · rcases update_cases hupdate with ⟨_, hr'⟩ | ⟨hk, hr'⟩
    · cases hr'
    · obtain ⟨row', hrow', hsound'⟩ := h.reading k r' hr'
      refine ⟨row', ?_, hsound'⟩
      rw [hjobs, Db.get_updateJob, hrow', Option.map_some, if_neg hk]

theorem Leads.commit {j : JobId} {r : Reading} (h : s.Sound) (hr : s.reading j = some r) :
    s.Leads { s with
      db := (s.db.updateJob j (r.commitRow cfg)).finish r.tick j
      reading := Function.update s.reading j none } := by
  obtain ⟨row, hrow, hsound⟩ := h.reading j r hr
  obtain ⟨hjobs, hnext⟩ := Db.finish_jobs (s.db.updateJob j (r.commitRow cfg)) r.tick j
  refine ⟨Nat.le_of_eq hnext.symm, fun k job' hjob' => .inl ?_⟩
  rw [hjobs, Db.get_updateJob] at hjob'
  obtain ⟨job, hjob, rfl⟩ := Option.map_eq_some_iff.mp hjob'
  refine ⟨job, hjob, ?_⟩
  split
  next hk =>
    cases hk
    rw [hrow] at hjob
    cases hjob
    exact hsound.commitRow_evolve
  next => exact .refl _

/-- A step that spares the rounds under way keeps the invariant, and every job carries on. -/
theorem Sound.step {l : RoundLabel} (h : s.Sound) (hspares : s.SparesRounds l)
    (hstep : Rounds.step cfg s l = some s') : s'.Sound ∧ s.Leads s' := by
  cases l with
  | transaction l =>
    obtain ⟨db', hnext, hgo⟩ := Option.bind_eq_some_iff.mp hstep
    split at hgo
    next hopen =>
      cases hgo
      rw [Bool.and_eq_true] at hopen
      exact ⟨h.transaction hspares hnext hopen.2, .transaction hnext⟩
    next => cases hgo
  | read t now round =>
    obtain ⟨⟨j, job⟩, hentering, hread⟩ := Option.bind_eq_some_iff.mp hstep
    dsimp only at hread
    split at hread
    next =>
      cases hread
      exact ⟨h.read hentering, .of_eq rfl⟩
    next => cases hread
  | send j =>
    obtain ⟨r, hr, hgo⟩ := Option.bind_eq_some_iff.mp hstep
    split at hgo
    next htodo =>
      cases hgo
      exact ⟨h.send hr htodo, .of_eq rfl⟩
    next => cases hgo
  | commit j =>
    obtain ⟨r, hr, hgo⟩ := Option.bind_eq_some_iff.mp hstep
    split at hgo
    next =>
      cases hgo
      exact ⟨h.commit hr, .commit h hr⟩
    next => cases hgo
  | rollback j =>
    obtain ⟨r, hr, rfl⟩ := Option.map_eq_some_iff.mp hstep
    exact ⟨h.endRound, .of_eq rfl⟩

end Rounds

/-- What a job is settled with depends on the deliveries but for their devices. -/
theorem PushJob.Settled.of_bare {job job' : PushJob} (h : job.Settled)
    (hstatus : job'.status = job.status)
    (hbare : job'.deliveries.map (·.bare) = job.deliveries.map (·.bare)) : job'.Settled := by
  have hexists (p : PushDeliveryStatus → Prop) :
      (∃ d ∈ job'.deliveries, p d.status) ↔ ∃ d ∈ job.deliveries, p d.status := by
    have hmap (ds : List PushDelivery) :
        (∃ d ∈ ds, p d.status) ↔ ∃ d ∈ ds.map (·.bare), p d.status := by
      simp [PushDelivery.bare]
    rw [hmap, hbare, ← hmap]
  refine ⟨fun d hd hpending => ?_, ?_, ?_, ?_⟩
  · obtain ⟨d', hd', hpending'⟩ := (hexists (· = .pending)).mp ⟨d, hd, hpending⟩
    exact h.nonePending d' hd' hpending'
  · rw [hstatus, hexists (· = .sent), hexists (· = .failed)]
    exact h.sent
  · rw [hstatus, hexists (· = .sent), hexists (· = .failed)]
    exact h.partialFailed
  · rw [hstatus, hexists (· = .sent)]
    exact h.failed

namespace Rounds

/-- The delivery keeps its status as long as its job is there, and no round hands it over. -/
structure KeepsSettled (s : Rounds) (j : JobId) (d : PushDelivery) : Prop where
  status : ∀ job, s.db.jobs.get j = some job →
    ∃ d' ∈ job.deliveries, d'.token = d.token ∧ d'.status = d.status
  notHanded : ∀ d', s.hands j = some d' → d'.token ≠ d.token

variable {cfg : Settings} {s s' : Rounds} {ls ls' : List RoundLabel}

theorem Sound.run (h : s.Sound) (hrun : Run (Rounds.step cfg) SparesRounds s ls s') :
    s'.Sound ∧ s.Leads s' := by
  induction hrun with
  | nil => exact ⟨h, .of_eq rfl⟩
  | snoc _ hok hstep ih =>
    obtain ⟨hsound, hleads⟩ := ih.1.step hok hstep
    exact ⟨hsound, ih.2.trans hleads⟩

/-- A delivery that is not pending keeps its status. -/
theorem Leads.status {j : JobId} {job job' : PushJob} {d : PushDelivery} (h : s.Leads s')
    (hbelow : JobsBelow s.db) (hjob : s.db.jobs.get j = some job) (hd : d ∈ job.deliveries)
    (hsettled : d.status ≠ .pending) (hjob' : s'.db.jobs.get j = some job') :
    ∃ d' ∈ job'.deliveries, d'.token = d.token ∧ d'.status = d.status := by
  rcases h.rows j job' hjob' with ⟨job₀, hjob₀, hevolve⟩ | hnew
  · rw [hjob] at hjob₀
    cases hjob₀
    obtain ⟨d', hd', hfollows⟩ := hevolve.kept d hd
    exact ⟨d', hd', hfollows.token, hfollows.status hsettled⟩
  · have hlt := hbelow j (by rw [hjob]; exact nofun)
    exact absurd hnew (Nat.not_le_of_lt hlt)

/-- What a round hands over is pending in the job's row, if it is there. -/
theorem Sound.hands_pending {j : JobId} {d d' : PushDelivery} {row : PushJob} (h : s.Sound)
    (hhands : s.hands j = some d') (hrow : s.db.jobs.get j = some row) (hd : d ∈ row.deliveries)
    (htoken : d'.token = d.token) : d.status = .pending := by
  obtain ⟨r, hr, hhead⟩ := Option.bind_eq_some_iff.mp hhands
  obtain ⟨next, hnext, hdue⟩ := Option.bind_eq_some_iff.mp hhead
  split at hdue
  next hsends =>
    cases hdue
    obtain ⟨row', hrow', hsound⟩ := h.reading j r hr
    rw [hrow] at hrow'
    cases hrow'
    -- The row's delivery is the one the round has read under the same token.
    obtain ⟨b, hb, hbare⟩ := List.mem_map.mp (hsound.rows.subset (List.mem_map_of_mem hd))
    have hb_token : b.token = d.token := by
      show b.bare.token = d.bare.token
      rw [hbare]
    have hb_status : b.status = d.status := by
      show b.bare.status = d.bare.status
      rw [hbare]
    have hsame : b = d' := List.inj_on_of_nodup_map hsound.tokens hb
      (hsound.todo d' (List.mem_of_mem_head? hnext)) (hb_token.trans htoken.symm)
    rw [Bool.and_eq_true, PushJob.dueDelivery, Bool.and_eq_true, decide_eq_true_eq] at hsends
    rw [← hb_status, hsame]
    exact hsends.1.1
  next => cases hdue

/-- **Deliveries and jobs keep to their states** in every run in which no full sync skips a
delivery of a job whose round is under way: the deliveries of a job are one per token, neither
they nor the job are tried beyond their maximum, a delivery that was sent, failed or skipped
stays so and is not handed over again, and the commit of a round that settles its job leaves
the status its deliveries give. -/
theorem delivery_state_machine (hrun : Run (Rounds.step cfg) SparesRounds Rounds.initial ls s) :
    (∀ j job, s.db.jobs.get j = some job → job.Regular ∧
      ∀ d ∈ job.deliveries, d.status ≠ .pending →
        ∀ ls' s', Run (Rounds.step cfg) SparesRounds s ls' s' → s'.KeepsSettled j d) ∧
    ∀ j s' job', Rounds.step cfg s (.commit j) = some s' → s'.db.jobs.get j = some job' →
      job'.status ≠ .pending → job'.Settled := by
  have hsound := (Sound.initial.run hrun).1
  constructor
  · refine fun j job hjob => ⟨hsound.regular j job hjob, fun d hd hsettled ls' s' hrun' => ?_⟩
    obtain ⟨hsound', hleads⟩ := hsound.run hrun'
    refine ⟨fun job' hjob' => hleads.status hsound.below hjob hd hsettled hjob',
      fun d' hhands htoken => ?_⟩
    obtain ⟨r, hr, _⟩ := Option.bind_eq_some_iff.mp hhands
    obtain ⟨row, hrow, _⟩ := hsound'.reading j r hr
    obtain ⟨d₀, hd₀, htoken₀, hstatus₀⟩ := hleads.status hsound.below hjob hd hsettled hrow
    have hpending := hsound'.hands_pending hhands hrow hd₀ (htoken.trans htoken₀.symm)
    exact hsettled (hstatus₀ ▸ hpending)
  · intro j s' job' hstep hjob' hnotPending
    obtain ⟨r, hr, hcommit⟩ := Option.bind_eq_some_iff.mp hstep
    split at hcommit
    next =>
      cases hcommit
      obtain ⟨row, hrow, hreads⟩ := hsound.reading j r hr
      obtain ⟨hjobs, _⟩ := Db.finish_jobs (s.db.updateJob j (r.commitRow cfg)) r.tick j
      rw [hjobs, Db.get_updateJob, hrow, Option.map_some, if_pos rfl] at hjob'
      cases hjob'
      exact (PushJob.deliverRound_settled hnotPending).of_bare rfl hreads.commitRow_bare
    next => cases hcommit

end Rounds

/-! ### A round with nothing in between -/

theorem PushDelivery.written_self {before after : PushDelivery} (hfollows : before.Follows after)
    (hdevice : after.deviceId = before.deviceId) : before.written after before = after := by
  refine eq_of_bare (written_bare rfl hfollows) ?_
  exact hdevice.symm

/-- Over the rows the round has read, its commit leaves what it has made of them. -/
theorem writeBack_self {f : PushDelivery → PushDelivery}
    (hf : ∀ d, PushDelivery.Follows d (f d) ∧ (f d).deviceId = d.deviceId)
    (ds new : List PushDelivery) :
    writeBack (ds ++ new) ((ds ++ new).map f) ds = (ds ++ new).map f := by
  induction ds with
  | nil => cases new <;> rfl
  | cons d rest ih =>
    rw [List.cons_append, List.map_cons, writeBack, ih,
      PushDelivery.written_self (hf d).1 (hf d).2]

namespace Rounds

/-- A round goes over its deliveries one by one. -/
theorem exec_sends {cfg : Settings} {j : JobId} {r : Reading} (ds : List PushDelivery)
    (s : Rounds) (hr : s.reading j = some { r with todo := ds }) (ls : List RoundLabel) :
    exec (Rounds.step cfg) s (ds.map (fun _ => .send j) ++ ls) =
      exec (Rounds.step cfg)
        { s with reading := Function.update s.reading j (some { r with todo := [] }) } ls := by
  induction ds generalizing s with
  | nil => rw [← hr, Function.update_eq_self, List.map_nil, List.nil_append]
  | cons d rest ih =>
    have hstep : Rounds.step cfg s (.send j) =
        some { s with reading := Function.update s.reading j (some { r with todo := rest }) } := by
      simp only [Rounds.step, hr, Option.bind_some]
    rw [List.map_cons, List.cons_append, exec, hstep, Option.bind_some,
      ih _ (Function.update_self ..), Function.update_idem]

/-- Without full syncs, nothing is skipped in a round. -/
theorem run_of_no_skips {cfg : Settings} {s s' : Rounds} {ls : List RoundLabel}
    (hrun : FreeRun (Rounds.step cfg) s ls s') (hnone : ls.all (fun l => !l.skips) = true) :
    Run (Rounds.step cfg) SparesRounds s ls s' := by
  induction hrun with
  | nil => exact .nil
  | @snoc ls t l u _ _ hstep ih =>
    rw [List.all_append, Bool.and_eq_true] at hnone
    refine .snoc (ih hnone.1) ?_ hstep
    have hl : l.skips = false := by simpa using hnone.2
    unfold RoundLabel.skips at hl
    split at hl
    next => cases hl
    next hother =>
      unfold SparesRounds
      split
      next userId deviceId => exact absurd rfl (hother userId deviceId)
      next => trivial

/-- **A round with nothing in between** is the one transaction of `_process_job`. -/
theorem undisturbed_round {cfg : Settings} {s : Rounds} {t : TickId} {now : Time} {round : Round}
    {j : JobId} {job : PushJob} (hentering : s.db.entering cfg t now round = some (j, job))
    (hfree : s.reading j = none) (hraised : s.raised t = false) (skip : JobId → Bool)
    (ends : List NewJob) :
    ∃ db', Push.step cfg s.db (.process t now round skip ends) = some db' ∧
      exec (Rounds.step cfg) s
        (.read t now round :: (job.deliveries.map (fun _ => .send j) ++ [.commit j])) =
          some { s with db := db' } := by
  obtain ⟨tick, c, rest, check, row, htick, hbatch, rfl, hcheck, hrow, hclaimed, hdelivering⟩ :=
    Db.entering_cases hentering
  obtain ⟨⟨new, hnew⟩, _, hprocess⟩ := PushJob.delivering_cases hclaimed hdelivering
  -- The commit writes what the transaction would.
  have hcommit : s.db.updateJob c.jobId (Reading.commitRow cfg ⟨t, job, now, round, []⟩) =
      s.db.updateJob c.jobId fun _ => job.deliverRound cfg now round := by
    unfold Db.updateJob Db.modifyJobs
    congr 1
    refine Table.modify_congr fun k row' hrow' => ?_
    split
    next hk =>
      rw [hk, hrow] at hrow'
      cases hrow'
      obtain ⟨f, hf, hmap⟩ := PushJob.deliverRound_map cfg job now round
      unfold Reading.commitRow
      dsimp only
      rw [hmap]
      have hdeliveries : job.deliveries = row.deliveries ++ new := by rw [hnew]
      rw [hdeliveries, writeBack_self hf, ← hdeliveries, ← hmap]
    next => rfl
  refine ⟨(s.db.updateJob c.jobId fun _ => job.deliverRound cfg now round).advance t tick
    c.jobId rest, ?_, ?_⟩
  · simp only [Push.step, htick, hbatch, hcheck, Option.map_some, Db.processJob, hrow, hprocess]
  · have hread : Rounds.step cfg s (.read t now round) = some { s with
        reading := Function.update s.reading c.jobId
          (some ⟨t, job, now, round, job.deliveries⟩) } := by
      simp [Rounds.step, hentering, hfree, hraised]
    rw [exec, hread, Option.bind_some, exec_sends (r := ⟨t, job, now, round, []⟩) job.deliveries _
      (Function.update_self ..), exec, Function.update_idem]
    have hdone : Function.update s.reading c.jobId none = s.reading := by
      rw [← hfree, Function.update_eq_self]
    have hticks : (s.db.updateJob c.jobId fun _ => job.deliverRound cfg now round).ticks t =
        some tick := htick
    simp only [Rounds.step, Function.update_self, Option.bind_some, if_true, hcommit, exec,
      Function.update_idem, hdone, Db.finish, hticks, hbatch, List.tail_cons]

end Rounds

/-! ### The skip in between -/

/-- A sync trigger for all devices of user 1. -/
def accountWide : NewJob where
  userId := 1
  deviceId := none
  dedupeKey := .other "sync_trigger"
  channel := .system
  scenario := .syncTrigger
  payload :=
    { activityEnd := false
      activityId := none
      sessionReauth := false
      forced := false
      sourceDeviceId := none }
  fireAt := 0
  priority := 100

/-- The phone's first send is refused. -/
def phoneRefused : Round :=
  { oneRefused with
    tokens := [⟨⟨"phone", "device", ""⟩, 11, false, false⟩]
    sends := fun _ => .refused "TooManyRequests" }

/-- The phone's second send succeeds. -/
def phoneReached : Round := { phoneRefused with sends := fun _ => .success }

/-- The first round of a trigger ends with its delivery to the phone still pending. -/
def firstRoundRefused : List RoundLabel :=
  [.transaction (.fileJobs [accountWide] 0), .transaction (.startTick 0 "worker"),
    .transaction (.claim 0 [1] SECOND), .read 0 SECOND phoneRefused, .send 1, .commit 1,
    .transaction (.endTick 0), .transaction (.startTick 1 "worker"),
    .transaction (.claim 1 [1] (100 * SECOND))]

/-- The phone syncs by itself once the second round has read its delivery as pending. -/
def skippedMidRound : List RoundLabel :=
  firstRoundRefused ++
    [.read 1 (100 * SECOND) phoneReached,
      .transaction (.cancelPendingDeliveriesForDevice 1 11)]

/-- The rest of that round. -/
def restOfRound : List RoundLabel := [.send 1, .commit 1]

/-- The second round of a trigger reaches the phone, and settles it as sent. -/
theorem delivery_state_machine_of_two_rounds :
    ∃ s s' job, FreeRun (Rounds.step defaultSettings) Rounds.initial
        (firstRoundRefused ++ [.read 1 (100 * SECOND) phoneReached, .send 1]) s ∧
      Rounds.step defaultSettings s (.commit 1) = some s' ∧ s'.db.jobs.get 1 = some job ∧
      job.status = .sent ∧ job.Settled := by
  have hrun : FreeRun (Rounds.step defaultSettings) Rounds.initial
      (firstRoundRefused ++ [.read 1 (100 * SECOND) phoneReached, .send 1]) _ := run_of_exec rfl
  have hspares := Rounds.run_of_no_skips hrun rfl
  exact ⟨_, _, _, hrun, rfl, rfl, rfl,
    (Rounds.delivery_state_machine hspares).2 1 _ _ rfl rfl (by decide)⟩

/-- **A skipped delivery is sent**: the full sync has committed the phone's delivery as skipped,
and then the round hands it over and commits it as sent. -/
theorem skipped_delivery_is_sent :
    ∃ s s' d d', FreeRun (Rounds.step defaultSettings) Rounds.initial skippedMidRound s ∧
      (s.db.jobs.get 1).map (·.deliveries) = some [d] ∧ d.status = .skipped ∧
      (s.hands 1).map (·.token) = some d.token ∧
      FreeRun (Rounds.step defaultSettings) s restOfRound s' ∧
      (s'.db.jobs.get 1).map (·.deliveries) = some [d'] ∧ d'.token = d.token ∧
      d'.status = .sent :=
  ⟨_, _, _, _, run_of_exec rfl, rfl, rfl, rfl, run_of_exec rfl, rfl, rfl, rfl⟩

end TigerDuck.Push
