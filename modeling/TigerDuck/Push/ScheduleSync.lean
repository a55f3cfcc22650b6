import TigerDuck.Push.Filing

/-!
# The schedule sync

`POST /v3/schedule/sync` and `DELETE /v3/schedule/{source_id}`: what a device posts replaces its
waiting start jobs. A job that the pipeline has claimed or sent, or whose row another transaction
holds, keeps its key. The counts of the answers are left out.

## Main results

- `get_scheduledRows`, `filed_syncSchedule`: the sync rewrites the rows it looks at and files the
  starts still to fire.
- `syncSchedule_exact`: afterwards the waiting starts are those posted, nothing else has changed,
  a second sync of the same list changes nothing, and a deletion takes the starts of one source.
- `startsWith_schedulePrefix_iff`, `scheduleKey_inj`: the keys as the strings they are stored as.
-/

namespace TigerDuck.Push

open Relational

variable {db db' : Db} {userId : UserId} {deviceId : DeviceId} {events : List ScheduleEvent}
  {skip skip' : JobId → Bool} {now now' : Time} {key : DedupeKey} {e : ScheduleEvent} {j : JobId}
  {job : PushJob}

/-! ### What the claim is about -/

/-- A waiting start job of the user under the key. -/
structure Db.Waits (db : Db) (userId : UserId) (key : DedupeKey) (j : JobId) (job : PushJob) :
    Prop where
  stored : db.jobs.get j = some job
  user : job.userId = userId
  channel : job.channel = .schedule
  key : job.dedupeKey = key
  pending : job.status = .pending

/-- The key is held by a job the sync does not look at: a claimed or sent one, one whose row
another transaction holds, or one of another channel, which no route files under such a key. -/
def Db.HeldElsewhere (db : Db) (userId : UserId) (skip : JobId → Bool) (key : DedupeKey) : Prop :=
  ∃ j job, db.jobs.get j = some job ∧ job.userId = userId ∧ job.dedupeKey = key ∧
    job.status.dedupeActive = true ∧
      (job.status ≠ .pending ∨ skip j = true ∨ job.channel ≠ .schedule)

/-- The event is posted under the key, and is still to fire or unchanged. -/
def Db.Wants (db : Db) (userId : UserId) (deviceId : DeviceId) (events : List ScheduleEvent)
    (now : Time) (key : DedupeKey) (e : ScheduleEvent) : Prop :=
  Db.incoming deviceId events key = some e ∧
    (now < e.fireAt ∨ ∃ j job, db.Waits userId key j job ∧ job.fireAt = e.fireAt)

/-- What a sync leaves. -/
structure Synced (db db' : Db) (userId : UserId) (deviceId : DeviceId)
    (events : List ScheduleEvent) (skip : JobId → Bool) (now : Time) : Prop where
  /-- A waiting start is a posted one, with its fire time and payload. -/
  posted : ∀ key, key.scheduledFor deviceId = true → ¬ db.HeldElsewhere userId skip key →
    ∀ j job, db'.Waits userId key j job →
      ∃ e, db.Wants userId deviceId events now key e ∧ job.fireAt = e.fireAt ∧
        job.payload = e.payload
  /-- A posted start waits, once. -/
  waiting : ∀ key, key.scheduledFor deviceId = true → ¬ db.HeldElsewhere userId skip key →
    ∀ e, db.Wants userId deviceId events now key e →
      ∃ j job, db'.Waits userId key j job ∧ ∀ j' job', db'.Waits userId key j' job' → j' = j
  /-- A key that is held elsewhere keeps its job, and gets no other. -/
  held : ∀ key, db.HeldElsewhere userId skip key → ∀ j job, job.userId = userId →
    job.dedupeKey = key → job.status.dedupeActive = true →
      (db'.jobs.get j = some job ↔ db.jobs.get j = some job)
  /-- What is not one of the device's starts stays as it is. -/
  others : ∀ j job, ¬ (job.userId = userId ∧ job.channel = .schedule ∧
    job.dedupeKey.scheduledFor deviceId = true) →
      (db'.jobs.get j = some job ↔ db.jobs.get j = some job)
  /-- A row that does not wait, or that is locked, stays as it is. -/
  untouched : ∀ j job, db.jobs.get j = some job → job.status ≠ .pending ∨ skip j = true →
    db'.jobs.get j = some job

/-! ### The rows a sync looks at -/

section Rows

variable (userId deviceId events skip now)

/-- What a sync makes of a row. -/
def scheduledRow (j : JobId) (job : PushJob) : PushJob :=
  Db.keptRow userId deviceId events skip j
    (Db.cancelRow now (Db.isReplaced userId deviceId events skip now) j job)

/-- The jobs once a sync has rewritten their rows. -/
def Db.scheduledRows (db : Db) : Db :=
  (db.cancelPending now (Db.isReplaced userId deviceId events skip now)).modifyJobs
    (Db.keptRow userId deviceId events skip)

/-- The starts a sync files. -/
def newStarts : List NewJob :=
  (events.filter fun e => decide (now < e.fireAt) && decide
    (Db.incoming deviceId events (.schedule deviceId e.sourceId e.scenario) = some e)).map
      (Db.startJob userId deviceId)

end Rows

theorem syncSchedule_eq : db.syncSchedule userId deviceId events skip now =
    (db.scheduledRows userId deviceId events skip now).fileJobs now
      (newStarts userId deviceId events now) := rfl

theorem get_scheduledRows (j : JobId) :
    (db.scheduledRows userId deviceId events skip now).jobs.get j =
      (db.jobs.get j).map (scheduledRow userId deviceId events skip now j) := by
  show ((db.jobs.modify _).modify _).get j = _
  rw [Table.get_modify, Table.get_modify, Option.map_map]
  rfl

/-- The event under a key is posted under it. -/
theorem of_incoming (h : Db.incoming deviceId events key = some e) :
    e ∈ events ∧ key = .schedule deviceId e.sourceId e.scenario := by
  have hmem := List.mem_of_find?_eq_some h
  have hkey := List.find?_some h
  exact ⟨List.mem_reverse.mp hmem, of_decide_eq_true hkey⟩

theorem isScheduled_iff : Db.isScheduled userId deviceId skip j job = true ↔
    skip j = false ∧ job.userId = userId ∧ job.channel = .schedule ∧
      job.dedupeKey.scheduledFor deviceId = true := by
  simp only [Db.isScheduled, Bool.and_eq_true, Bool.not_eq_true', decide_eq_true_eq, and_assoc]

theorem isReplaced_iff : Db.isReplaced userId deviceId events skip now j job = true ↔
    Db.isScheduled userId deviceId skip j job = true ∧
      ∀ e, Db.incoming deviceId events job.dedupeKey = some e →
        e.fireAt ≠ job.fireAt ∧ e.fireAt ≤ now := by
  rw [Db.isReplaced, Bool.and_eq_true, Option.all_eq_true]
  simp only [Bool.and_eq_true, decide_eq_true_eq]

/-- A row a sync does not look at stays as it is. -/
theorem scheduledRow_of_not
    (h : ¬ (job.status = .pending ∧ Db.isScheduled userId deviceId skip j job = true)) :
    scheduledRow userId deviceId events skip now j job = job := by
  have hcancel : Db.cancelRow now (Db.isReplaced userId deviceId events skip now) j job = job :=
    if_neg fun hreplaced => h ⟨hreplaced.1, (isReplaced_iff.mp hreplaced.2).1⟩
  rw [scheduledRow, hcancel]
  exact if_neg h

/-- A waiting start that is posted no more, or moved into the past, is cancelled. -/
theorem scheduledRow_of_replaced (hpending : job.status = .pending)
    (h : Db.isReplaced userId deviceId events skip now j job = true) :
    scheduledRow userId deviceId events skip now j job = job.cancel now := by
  have hcancel : Db.cancelRow now (Db.isReplaced userId deviceId events skip now) j job =
      job.cancel now := if_pos ⟨hpending, h⟩
  rw [scheduledRow, hcancel]
  exact if_neg fun hkept => PushJobStatus.noConfusion hkept.1

/-- Any other takes its event's time and payload. -/
theorem scheduledRow_of_kept (hpending : job.status = .pending)
    (hscheduled : Db.isScheduled userId deviceId skip j job = true)
    (he : Db.incoming deviceId events job.dedupeKey = some e)
    (hkept : e.fireAt = job.fireAt ∨ now < e.fireAt) :
    scheduledRow userId deviceId events skip now j job = Db.reschedule job e := by
  have hcancel : Db.cancelRow now (Db.isReplaced userId deviceId events skip now) j job = job := by
    refine if_neg fun hreplaced => ?_
    obtain ⟨hne, hle⟩ := (isReplaced_iff.mp hreplaced.2).2 e he
    rcases hkept with heq | hlt
    · exact hne heq
    · exact absurd hlt (Nat.not_lt.mpr hle)
  rw [scheduledRow, hcancel, Db.keptRow, if_pos ⟨hpending, hscheduled⟩, he]
  rfl

/-- What a sync may make of a row. -/
theorem scheduledRow_cases (userId : UserId) (deviceId : DeviceId) (events : List ScheduleEvent)
    (skip : JobId → Bool) (now : Time) (j : JobId) (job : PushJob) :
    (¬ (job.status = .pending ∧ Db.isScheduled userId deviceId skip j job = true) ∧
      scheduledRow userId deviceId events skip now j job = job) ∨
    (job.status = .pending ∧ Db.isScheduled userId deviceId skip j job = true ∧
      scheduledRow userId deviceId events skip now j job = job.cancel now) ∨
    ∃ e, job.status = .pending ∧ Db.isScheduled userId deviceId skip j job = true ∧
      Db.incoming deviceId events job.dedupeKey = some e ∧
        (e.fireAt = job.fireAt ∨ now < e.fireAt) ∧
          scheduledRow userId deviceId events skip now j job = Db.reschedule job e := by
  by_cases hlooked : job.status = .pending ∧ Db.isScheduled userId deviceId skip j job = true
  · obtain ⟨hpending, hscheduled⟩ := hlooked
    by_cases hreplaced : Db.isReplaced userId deviceId events skip now j job = true
    · exact .inr (.inl ⟨hpending, hscheduled, scheduledRow_of_replaced hpending hreplaced⟩)
    · rw [isReplaced_iff] at hreplaced
      push Not at hreplaced
      obtain ⟨e, he, hkept⟩ := hreplaced hscheduled
      have hkept' : e.fireAt = job.fireAt ∨ now < e.fireAt := by
        by_cases heq : e.fireAt = job.fireAt
        · exact .inl heq
        · exact .inr (hkept heq)
      exact .inr (.inr ⟨e, hpending, hscheduled, he, hkept',
        scheduledRow_of_kept hpending hscheduled he hkept'⟩)
  · exact .inl ⟨hlooked, scheduledRow_of_not hlooked⟩

/-- A row keeps its user, its channel and its key, and is active only if it was. -/
theorem scheduledRow_same (userId : UserId) (deviceId : DeviceId) (events : List ScheduleEvent)
    (skip : JobId → Bool) (now : Time) (j : JobId) (job : PushJob) :
    let job' := scheduledRow userId deviceId events skip now j job
    job'.userId = job.userId ∧ job'.channel = job.channel ∧ job'.dedupeKey = job.dedupeKey ∧
      (job'.status = job.status ∨ job.status = .pending ∧ job'.status = .cancelled) := by
  rcases scheduledRow_cases userId deviceId events skip now j job with ⟨_, hrow⟩ | ⟨hpending, _, hrow⟩ |
      ⟨e, _, _, _, _, hrow⟩
  · rw [hrow]
    exact ⟨rfl, rfl, rfl, .inl rfl⟩
  · rw [hrow]
    exact ⟨rfl, rfl, rfl, .inr ⟨hpending, rfl⟩⟩
  · rw [hrow]
    exact ⟨rfl, rfl, rfl, .inl rfl⟩

/-! ### What a sync leaves -/

section Sync

variable (hbelow : JobsBelow db) (hunique : db.KeysUnique)

/-- The stored row behind one a sync has rewritten. -/
theorem exists_of_get_scheduledRows
    (h : (db.scheduledRows userId deviceId events skip now).jobs.get j = some job) :
    ∃ old, db.jobs.get j = some old ∧
      job = scheduledRow userId deviceId events skip now j old := by
  rw [get_scheduledRows] at h
  obtain ⟨old, hold, hrow⟩ := Option.map_eq_some_iff.mp h
  exact ⟨old, hold, hrow.symm⟩

/-- An active row was active under its key before. -/
theorem active_of_get_scheduledRows
    (h : (db.scheduledRows userId deviceId events skip now).jobs.get j = some job)
    (hactive : job.status.dedupeActive = true) :
    ∃ old, db.jobs.get j = some old ∧ old.userId = job.userId ∧ old.dedupeKey = job.dedupeKey ∧
      old.status.dedupeActive = true := by
  obtain ⟨old, hold, rfl⟩ := exists_of_get_scheduledRows h
  obtain ⟨huser, _, hkey, hstatus⟩ := scheduledRow_same userId deviceId events skip now j old
  refine ⟨old, hold, huser.symm, hkey.symm, ?_⟩
  rcases hstatus with hsame | ⟨hpending, _⟩
  · rw [← hsame]
    exact hactive
  · rw [hpending]
    rfl

include hbelow hunique

/-- A sync files its starts beside the rows it has rewritten. -/
theorem filed_syncSchedule :
    Db.Filed now (newStarts userId deviceId events now)
      (db.scheduledRows userId deviceId events skip now)
      (db.syncSchedule userId deviceId events skip now) := by
  rw [syncSchedule_eq]
  refine Db.filed_fileJobs ?_ ?_ _
  · exact Db.jobsBelow_modifyJobs (Db.jobsBelow_cancelPending hbelow _) _
  · intro j j' job job' hjob hjob' huser hkey hactive hactive'
    obtain ⟨old, hold, hou, hok, hoa⟩ := active_of_get_scheduledRows hjob hactive
    obtain ⟨old', hold', hou', hok', hoa'⟩ := active_of_get_scheduledRows hjob' hactive'
    exact hunique j j' old old' hold hold' (hou.trans (huser.trans hou'.symm))
      (hok.trans (hkey.trans hok'.symm)) hoa hoa'

/-- A row after a sync is a stored one, rewritten, or a start that is posted and still to fire. -/
theorem row_of_syncSchedule
    (h : (db.syncSchedule userId deviceId events skip now).jobs.get j = some job) :
    (∃ old, db.jobs.get j = some old ∧
      job = scheduledRow userId deviceId events skip now j old) ∨
    db.jobs.get j = none ∧ ∃ e, now < e.fireAt ∧
      Db.incoming deviceId events (.schedule deviceId e.sourceId e.scenario) = some e ∧
        job = (Db.startJob userId deviceId e).row now := by
  rcases (filed_syncSchedule hbelow hunique).new j job h with hold | ⟨hnone, new, hnew, rfl⟩
  · exact .inl (exists_of_get_scheduledRows hold)
  · obtain ⟨e, he, rfl⟩ := List.mem_map.mp hnew
    obtain ⟨_, hcond⟩ := List.mem_filter.mp he
    simp only [Bool.and_eq_true, decide_eq_true_eq] at hcond
    rw [get_scheduledRows, Option.map_eq_none_iff] at hnone
    exact .inr ⟨hnone, e, hcond.1, hcond.2, rfl⟩

/-- A stored row is rewritten. -/
theorem get_syncSchedule (h : db.jobs.get j = some job) :
    (db.syncSchedule userId deviceId events skip now).jobs.get j =
      some (scheduledRow userId deviceId events skip now j job) := by
  refine (filed_syncSchedule hbelow hunique).kept j _ ?_
  rw [get_scheduledRows, h, Option.map_some]

/-- A waiting start is one that is posted, with its time and payload. -/
theorem wants_of_waits (hkey : ¬ db.HeldElsewhere userId skip key)
    (h : (db.syncSchedule userId deviceId events skip now).Waits userId key j job)
    (hdevice : key.scheduledFor deviceId = true) :
    ∃ e, db.Wants userId deviceId events now key e ∧ job.fireAt = e.fireAt ∧
      job.payload = e.payload := by
  rcases row_of_syncSchedule hbelow hunique h.stored with ⟨old, hold, rfl⟩ |
    ⟨_, e, hlt, he, rfl⟩
  · obtain ⟨huser, hchannel, hsame, hstatus⟩ := scheduledRow_same userId deviceId events skip now j old
    rcases scheduledRow_cases userId deviceId events skip now j old with ⟨hnot, hrow⟩ | ⟨_, _, hrow⟩ |
        ⟨e, hpending, _, he, hkept, hrow⟩
    · -- A waiting row the sync does not look at is locked.
      have hpending : old.status = .pending := hrow ▸ h.pending
      have hkey' : old.dedupeKey = key := hsame.symm.trans h.key
      refine absurd ⟨j, old, hold, huser.symm.trans h.user, hkey', ?_, .inr (.inl ?_)⟩ hkey
      · rw [hpending]
        rfl
      · by_contra hfree
        refine hnot ⟨hpending, isScheduled_iff.mpr ⟨by simpa using hfree,
          huser.symm.trans h.user, hchannel.symm.trans h.channel, ?_⟩⟩
        rw [hkey']
        exact hdevice
    · have hcancelled := h.pending
      rw [hrow] at hcancelled
      cases hcancelled
    · have hkey' : old.dedupeKey = key := hsame.symm.trans h.key
      refine ⟨e, ⟨hkey' ▸ he, ?_⟩, by rw [hrow]; rfl, by rw [hrow]; rfl⟩
      rcases hkept with heq | hlt
      · exact .inr ⟨j, old, ⟨hold, huser.symm.trans h.user, hchannel.symm.trans h.channel, hkey',
          hpending⟩, heq.symm⟩
      · exact .inl hlt
  · have hkey' : DedupeKey.schedule deviceId e.sourceId e.scenario = key := h.key
    exact ⟨e, ⟨hkey' ▸ he, .inl hlt⟩, rfl, rfl⟩

/-- A posted start waits. -/
theorem waits_of_wants (hkey : ¬ db.HeldElsewhere userId skip key)
    (he : db.Wants userId deviceId events now key e) :
    ∃ j job, (db.syncSchedule userId deviceId events skip now).Waits userId key j job := by
  obtain ⟨hincoming, hwanted⟩ := he
  obtain ⟨hmem, rfl⟩ := of_incoming hincoming
  by_cases hholds : db.Holds userId (.schedule deviceId e.sourceId e.scenario)
  · -- Its waiting job is kept.
    obtain ⟨j, old, hold, huser, hsame, hactive⟩ := hholds
    have hfree : ¬ (old.status ≠ .pending ∨ skip j = true ∨ old.channel ≠ .schedule) :=
      fun hnot => hkey ⟨j, old, hold, huser, hsame, hactive, hnot⟩
    push Not at hfree
    obtain ⟨hpending, hskip, hchannel⟩ := hfree
    have hwaits : db.Waits userId (.schedule deviceId e.sourceId e.scenario) j old :=
      ⟨hold, huser, hchannel, hsame, hpending⟩
    have hscheduled : Db.isScheduled userId deviceId skip j old = true :=
      isScheduled_iff.mpr ⟨by simpa using hskip, huser, hchannel, hsame ▸ decide_eq_true rfl⟩
    have hkept : e.fireAt = old.fireAt ∨ now < e.fireAt := by
      rcases hwanted with hlt | ⟨j', old', hwaits', heq⟩
      · exact .inr hlt
      · -- The key has one active job.
        have hj : j = j' := hunique j j' old old' hold hwaits'.stored
          (huser.trans hwaits'.user.symm) (hsame.trans hwaits'.key.symm) hactive
          (by rw [hwaits'.pending]; rfl)
        subst hj
        obtain rfl := Option.some.inj (hold.symm.trans hwaits'.stored)
        exact .inl heq.symm
    have hrow := scheduledRow_of_kept hwaits.pending hscheduled (hsame.symm ▸ hincoming) hkept
    refine ⟨j, Db.reschedule old e, ⟨?_, huser, hwaits.channel, hsame, hwaits.pending⟩⟩
    rw [get_syncSchedule hbelow hunique hold, hrow]
  · -- Its key is free, and it is filed.
    have hlt : now < e.fireAt := by
      rcases hwanted with hlt | ⟨j', old', hwaits', _⟩
      · exact hlt
      · exact absurd ⟨j', old', hwaits'.stored, hwaits'.user, hwaits'.key,
          by rw [hwaits'.pending]; rfl⟩ hholds
    have hnew : Db.startJob userId deviceId e ∈ newStarts userId deviceId events now := by
      refine List.mem_map.mpr ⟨e, List.mem_filter.mpr ⟨hmem, ?_⟩, rfl⟩
      simp only [Bool.and_eq_true, decide_eq_true_eq]
      exact ⟨hlt, hincoming⟩
    have hfiled : Db.Filed now _ (db.scheduledRows userId deviceId events skip now) _ :=
      filed_syncSchedule hbelow hunique
    obtain ⟨j, job, hjob, huser, hsame, hactive⟩ := hfiled.holds _ hnew
    rcases hfiled.new j job hjob with hold | ⟨_, new, hnew', rfl⟩
    · obtain ⟨old, hold, hou, hok, hoa⟩ := active_of_get_scheduledRows hold hactive
      exact absurd ⟨j, old, hold, hou.trans huser, hok.trans hsame, hoa⟩ hholds
    · obtain ⟨e', _, rfl⟩ := List.mem_map.mp hnew'
      exact ⟨j, _, ⟨hjob, huser, rfl, hsame, rfl⟩⟩

/-- A row the sync does not look at stays as it is. -/
theorem get_syncSchedule_of_not (h : db.jobs.get j = some job)
    (hnot : ¬ (job.status = .pending ∧ Db.isScheduled userId deviceId skip j job = true)) :
    (db.syncSchedule userId deviceId events skip now).jobs.get j = some job := by
  rw [get_syncSchedule hbelow hunique h, scheduledRow_of_not hnot]

/-- A key held elsewhere keeps its job and gets no other. -/
theorem get_syncSchedule_of_held (hkey : db.HeldElsewhere userId skip key)
    (huser : job.userId = userId) (hsame : job.dedupeKey = key)
    (hactive : job.status.dedupeActive = true) :
    (db.syncSchedule userId deviceId events skip now).jobs.get j = some job ↔
      db.jobs.get j = some job := by
  obtain ⟨holder, held, hheld, hu, hk, ha, hnot⟩ := hkey
  have huntouched : (db.syncSchedule userId deviceId events skip now).jobs.get holder =
      some held := by
    refine get_syncSchedule_of_not hbelow hunique hheld fun hlooked => ?_
    obtain ⟨hskip, _, hchannel, _⟩ := isScheduled_iff.mp hlooked.2
    rcases hnot with hstatus | hlocked | hother
    · exact hstatus hlooked.1
    · cases hskip.symm.trans hlocked
    · exact hother hchannel
  constructor
  · intro h
    -- After the sync the key still has one active job.
    obtain rfl : j = holder := (filed_syncSchedule hbelow hunique).unique j holder job held h
      huntouched (huser.trans hu.symm) (hsame.trans hk.symm) hactive ha
    rw [hheld, ← huntouched, h]
  · intro h
    obtain rfl : j = holder := hunique j holder job held h hheld (huser.trans hu.symm)
      (hsame.trans hk.symm) hactive ha
    rw [huntouched, ← hheld, h]

/-- What a sync leaves. -/
theorem synced_syncSchedule : Synced db (db.syncSchedule userId deviceId events skip now) userId
    deviceId events skip now where
  posted := fun key hdevice hkey j job h => wants_of_waits hbelow hunique hkey h hdevice
  waiting := fun key _ hkey e he => by
    obtain ⟨j, job, hwaits⟩ := waits_of_wants hbelow hunique hkey he
    refine ⟨j, job, hwaits, fun j' job' hwaits' => ?_⟩
    refine (filed_syncSchedule hbelow hunique).unique j' j job' job hwaits'.stored hwaits.stored
      (hwaits'.user.trans hwaits.user.symm) (hwaits'.key.trans hwaits.key.symm) ?_ ?_
    · rw [hwaits'.pending]
      rfl
    · rw [hwaits.pending]
      rfl
  held := fun _ hkey _ _ huser hsame hactive =>
    get_syncSchedule_of_held hbelow hunique hkey huser hsame hactive
  others := fun j job hother => by
    constructor
    · intro h
      rcases row_of_syncSchedule hbelow hunique h with ⟨old, hold, rfl⟩ | ⟨_, e, _, _, rfl⟩
      · obtain ⟨huser, hchannel, hkey, _⟩ := scheduledRow_same userId deviceId events skip now j old
        rw [scheduledRow_of_not]
        · exact hold
        · rintro ⟨_, hscheduled⟩
          obtain ⟨_, hu, hc, hk⟩ := isScheduled_iff.mp hscheduled
          exact hother ⟨huser.trans hu, hchannel.trans hc, hkey.symm ▸ hk⟩
      · exact absurd ⟨rfl, rfl, decide_eq_true rfl⟩ hother
    · intro h
      refine get_syncSchedule_of_not hbelow hunique h fun hlooked => hother ?_
      exact (isScheduled_iff.mp hlooked.2).2
  untouched := fun j job h hrow => by
    refine get_syncSchedule_of_not hbelow hunique h fun hlooked => ?_
    rcases hrow with hstatus | hskip
    · exact hstatus hlooked.1
    · cases (isScheduled_iff.mp hlooked.2).1.symm.trans hskip

/-- A row that is rewritten once stays so. -/
theorem scheduledRow_again (hskip : ∀ j, db.jobs.get j ≠ none → skip j = true → skip' j = true)
    (h : (db.syncSchedule userId deviceId events skip now).jobs.get j = some job) :
    scheduledRow userId deviceId events skip' now' j job = job := by
  by_cases hlooked : job.status = .pending ∧ Db.isScheduled userId deviceId skip' j job = true
  · obtain ⟨hpending, hscheduled⟩ := hlooked
    have hposted : ∃ e, Db.incoming deviceId events job.dedupeKey = some e ∧
        job.fireAt = e.fireAt ∧ job.payload = e.payload := by
      rcases row_of_syncSchedule hbelow hunique h with ⟨old, hold, rfl⟩ | ⟨_, e, _, he, rfl⟩
      · rcases scheduledRow_cases userId deviceId events skip now j old with ⟨hnot, hrow⟩ | ⟨_, _, hrow⟩ |
            ⟨e, _, _, he, _, hrow⟩
        · -- A row the first sync has passed over is locked still.
          rw [hrow] at hpending hscheduled
          obtain ⟨hfree, hrest⟩ := isScheduled_iff.mp hscheduled
          refine absurd ⟨hpending, isScheduled_iff.mpr ⟨?_, hrest⟩⟩ hnot
          by_contra hlocked
          rw [hskip j (by rw [hold]; simp) (by simpa using hlocked)] at hfree
          cases hfree
        · rw [hrow] at hpending
          cases hpending
        · rw [hrow]
          exact ⟨e, he, rfl, rfl⟩
      · exact ⟨e, he, rfl, rfl⟩
    obtain ⟨e, he, hfire, hpayload⟩ := hposted
    rw [scheduledRow_of_kept hpending hscheduled he (.inl hfire.symm), Db.reschedule,
      if_neg (not_not.mpr hfire.symm), ← hfire, ← hpayload]
  · exact scheduledRow_of_not hlooked

/-- Posting the same list again changes nothing. -/
theorem syncSchedule_again (hnow : now ≤ now')
    (hskip : ∀ j, db.jobs.get j ≠ none → skip j = true → skip' j = true) :
    (db.syncSchedule userId deviceId events skip now).syncSchedule userId deviceId events skip' now'
      = db.syncSchedule userId deviceId events skip now := by
  have hrows : (db.syncSchedule userId deviceId events skip now).scheduledRows userId deviceId
      events skip' now' = db.syncSchedule userId deviceId events skip now := by
    have hjobs : ∀ row ∈ (db.syncSchedule userId deviceId events skip now).jobs.rows,
        scheduledRow userId deviceId events skip' now' row.1 row.2 = row.2 := fun row hrow =>
      scheduledRow_again hbelow hunique hskip ((Table.get_eq_some_iff ..).mpr hrow)
    have hmodify : ((db.syncSchedule userId deviceId events skip now).jobs.modify
        (Db.cancelRow now' (Db.isReplaced userId deviceId events skip' now'))).modify
          (Db.keptRow userId deviceId events skip') =
        (db.syncSchedule userId deviceId events skip now).jobs :=
      (Table.modify_modify ..).trans ((Table.modify_eq_self_iff ..).mpr hjobs)
    unfold Db.scheduledRows Db.cancelPending Db.modifyJobs
    dsimp only
    rw [hmodify]
  rw [syncSchedule_eq, hrows]
  refine Db.fileJobs_eq_self fun new hnew => ?_
  -- What is still to fire now was so before.
  obtain ⟨e, he, rfl⟩ := List.mem_map.mp hnew
  obtain ⟨hmem, hcond⟩ := List.mem_filter.mp he
  simp only [Bool.and_eq_true, decide_eq_true_eq] at hcond
  refine (filed_syncSchedule hbelow hunique).holds _ (List.mem_map.mpr ⟨e, ?_, rfl⟩)
  refine List.mem_filter.mpr ⟨hmem, ?_⟩
  simp only [Bool.and_eq_true, decide_eq_true_eq]
  exact ⟨Nat.lt_of_le_of_lt hnow hcond.1, hcond.2⟩

end Sync

/-! ### Keys as strings -/

section Keys

/-- What stands before the first colon. -/
theorem takeWhile_colon {s : String} (hs : ':' ∉ s.toList) (rest : List Char) :
    (s.toList ++ ':' :: rest).takeWhile (· ≠ ':') = s.toList := by
  have hall : ∀ c ∈ s.toList, decide (c ≠ ':') = true :=
    fun c hc => decide_eq_true fun heq => hs (heq ▸ hc)
  rw [List.takeWhile_append_of_pos hall, List.takeWhile_cons_of_neg (by simp), List.append_nil]

/-- A text without a colon can be read back from in front of one. -/
theorem append_colon_inj {s t : String} {rest rest' : List Char} (hs : ':' ∉ s.toList)
    (ht : ':' ∉ t.toList) (h : s.toList ++ ':' :: rest = t.toList ++ ':' :: rest') :
    s = t ∧ rest = rest' := by
  have hst : s.toList = t.toList := by
    rw [← takeWhile_colon hs rest, h, takeWhile_colon ht]
  rw [hst, List.append_cancel_left_eq] at h
  exact ⟨String.toList_inj.mp hst, (List.cons_eq_cons.mp h).2⟩

/-- How a device's id is written. -/
structure DeviceText where
  text : DeviceId → String
  injective : ∀ d d', text d = text d' → d = d'
  noColon : ∀ d, ':' ∉ (text d).toList

variable (uuid : DeviceText) {d d' : DeviceId} {sourceId sourceId' : String}
  {scenario scenario' : Scenario}

/-- `schedule_prefix`. -/
def schedulePrefix (deviceId : DeviceId) : String := "schedule:" ++ uuid.text deviceId ++ ":"

/-- `schedule_key`. -/
def scheduleKey (deviceId : DeviceId) (sourceId : String) (scenario : Scenario) : String :=
  schedulePrefix uuid deviceId ++ sourceId ++ ":" ++ scenario.text

/-- `activity_end_key`. -/
def activityEndKey (deviceId : DeviceId) (activityId : String) : String :=
  "la_end:" ++ uuid.text deviceId ++ ":" ++ activityId

theorem toList_schedulePrefix :
    (schedulePrefix uuid d).toList =
      "schedule".toList ++ ':' :: ((uuid.text d).toList ++ [':']) := by
  simp [schedulePrefix]

theorem toList_scheduleKey :
    (scheduleKey uuid d sourceId scenario).toList = "schedule".toList ++ ':' ::
      ((uuid.text d).toList ++ ':' :: (sourceId.toList ++ ':' :: scenario.text.toList)) := by
  simp [scheduleKey, schedulePrefix]

/-- A key starts with the prefix of its own device and of no other. -/
theorem startsWith_schedulePrefix_iff :
    (schedulePrefix uuid d').toList <+: (scheduleKey uuid d sourceId scenario).toList ↔
      DedupeKey.scheduledFor d' (.schedule d sourceId scenario) = true := by
  rw [toList_schedulePrefix, toList_scheduleKey, List.prefix_append_right_inj,
    List.cons_prefix_cons, and_iff_right rfl]
  show _ ↔ decide (d = d') = true
  rw [decide_eq_true_eq]
  constructor
  · rintro ⟨rest, hrest⟩
    rw [List.append_assoc, List.singleton_append] at hrest
    exact (uuid.injective _ _ (append_colon_inj (uuid.noColon _) (uuid.noColon _) hrest).1).symm
  · rintro rfl
    exact ⟨sourceId.toList ++ ':' :: scenario.text.toList, by simp⟩

/-- An end job's key starts with no device's prefix of starts. -/
theorem not_startsWith_activityEnd {activityId : String} :
    ¬ (schedulePrefix uuid d').toList <+: (activityEndKey uuid d activityId).toList := by
  rintro ⟨rest, hrest⟩
  rw [toList_schedulePrefix] at hrest
  simp [activityEndKey] at hrest

/-- A key starts with the prefix of a source exactly where the model says so. -/
theorem startsWith_source_iff :
    (schedulePrefix uuid d' ++ sourceId' ++ ":").toList <+:
        (scheduleKey uuid d sourceId scenario).toList ↔
      DedupeKey.scheduledFrom d' sourceId' (.schedule d sourceId scenario) = true := by
  have hstarts : (schedulePrefix uuid d' ++ sourceId' ++ ":").toList =
      "schedule".toList ++ ':' ::
        ((uuid.text d').toList ++ ':' :: (sourceId' ++ ":").toList) := by
    simp [schedulePrefix]
  have htail : (sourceId ++ ":" ++ scenario.text).toList =
      sourceId.toList ++ ':' :: scenario.text.toList := by
    simp
  rw [hstarts, toList_scheduleKey, List.prefix_append_right_inj, List.cons_prefix_cons,
    and_iff_right rfl, DedupeKey.scheduledFrom, Bool.and_eq_true, decide_eq_true_eq,
    List.isPrefixOf_iff_prefix, htail]
  constructor
  · rintro ⟨rest, hrest⟩
    rw [List.append_assoc, List.cons_append] at hrest
    obtain ⟨hdevice, hsource⟩ := append_colon_inj (uuid.noColon _) (uuid.noColon _) hrest
    exact ⟨(uuid.injective _ _ hdevice).symm, rest, hsource⟩
  · rintro ⟨rfl, rest, hrest⟩
    refine ⟨rest, ?_⟩
    rw [List.append_assoc, List.cons_append, hrest]

/-- One key, one device, source and scenario. -/
theorem scheduleKey_inj (hs : ':' ∉ sourceId.toList) (hs' : ':' ∉ sourceId'.toList)
    (h : scheduleKey uuid d sourceId scenario = scheduleKey uuid d' sourceId' scenario') :
    d = d' ∧ sourceId = sourceId' ∧ scenario.text = scenario'.text := by
  have hlist := congrArg String.toList h
  rw [toList_scheduleKey, toList_scheduleKey, List.append_cancel_left_eq] at hlist
  obtain ⟨hdevice, hrest⟩ :=
    append_colon_inj (uuid.noColon _) (uuid.noColon _) (List.cons_eq_cons.mp hlist).2
  obtain ⟨hsource, htext⟩ := append_colon_inj hs hs' hrest
  exact ⟨uuid.injective _ _ hdevice, hsource, String.toList_inj.mp htext⟩

/-- A key of a source without a colon is from that source alone. -/
theorem scheduledFrom_iff (hs : ':' ∉ sourceId.toList) (hs' : ':' ∉ sourceId'.toList) :
    DedupeKey.scheduledFrom d' sourceId' (.schedule d sourceId scenario) = true ↔
      d = d' ∧ sourceId = sourceId' := by
  simp only [DedupeKey.scheduledFrom, Bool.and_eq_true, decide_eq_true_eq,
    List.isPrefixOf_iff_prefix]
  refine and_congr_right fun _ => ?_
  constructor
  · rintro ⟨rest, hrest⟩
    have hlist : sourceId'.toList ++ ':' :: rest =
        sourceId.toList ++ ':' :: scenario.text.toList := by simpa using hrest
    exact (append_colon_inj hs' hs hlist).1.symm
  · rintro rfl
    exact ⟨scenario.text.toList, by simp⟩

end Keys

/-! ### The sync and the deletion -/

/-- A deletion cancels the waiting, unlocked starts of the source, and no other row. Of a stored
job whose source has a colon, which the routes have not always refused, nothing is said. -/
structure CancelsSource (db db' : Db) (userId : UserId) (deviceId : DeviceId) (sourceId : String)
    (skip : JobId → Bool) (now : Time) : Prop where
  starts : ∀ scenario j job, db.Waits userId (.schedule deviceId sourceId scenario) j job →
    skip j = false → db'.jobs.get j = some (job.cancel now)
  others : ∀ j job, db.jobs.get j = some job →
    (∀ d s scenario, job.dedupeKey = .schedule d s scenario → ':' ∉ s.toList) →
      (∀ scenario, ¬ (db.Waits userId (.schedule deviceId sourceId scenario) j job ∧
        skip j = false)) → db'.jobs.get j = some job
  none : ∀ j, db.jobs.get j = none → db'.jobs.get j = none

theorem get_cancelSchedule {sourceId : String} (j : JobId) :
    (db.cancelSchedule userId deviceId sourceId skip now).jobs.get j = (db.jobs.get j).map
      (Db.cancelRow now (Db.isCancelled userId deviceId sourceId skip) j) :=
  Table.get_modify ..

theorem isCancelled_iff {sourceId : String} :
    Db.isCancelled userId deviceId sourceId skip j job = true ↔
      skip j = false ∧ job.userId = userId ∧ job.channel = .schedule ∧
        job.dedupeKey.scheduledFrom deviceId sourceId = true := by
  simp only [Db.isCancelled, Bool.and_eq_true, Bool.not_eq_true', decide_eq_true_eq, and_assoc]

/-- A deletion takes the starts of one source. -/
theorem cancelsSource_cancelSchedule {sourceId : String} (hsource : ':' ∉ sourceId.toList) :
    CancelsSource db (db.cancelSchedule userId deviceId sourceId skip now) userId deviceId sourceId
      skip now where
  starts := fun scenario j job hwaits hskip => by
    have hfrom : job.dedupeKey.scheduledFrom deviceId sourceId = true := by
      rw [hwaits.key]
      exact (scheduledFrom_iff hsource hsource).mpr ⟨rfl, rfl⟩
    rw [get_cancelSchedule, hwaits.stored, Option.map_some, Db.cancelRow, if_pos]
    exact ⟨hwaits.pending, isCancelled_iff.mpr ⟨hskip, hwaits.user, hwaits.channel, hfrom⟩⟩
  others := fun j job h hcolon hnot => by
    rw [get_cancelSchedule, h, Option.map_some, Db.cancelRow, if_neg]
    rintro ⟨hpending, hcancelled⟩
    obtain ⟨hskip, huser, hchannel, hfrom⟩ := isCancelled_iff.mp hcancelled
    cases hkey : job.dedupeKey with
    | schedule d s scenario =>
      rw [hkey] at hfrom
      obtain ⟨rfl, rfl⟩ := (scheduledFrom_iff (hcolon d s scenario hkey) hsource).mp hfrom
      exact hnot scenario ⟨⟨h, huser, hchannel, hkey, hpending⟩, hskip⟩
    | _ =>
      rw [hkey] at hfrom
      cases hfrom
  none := fun j h => by
    rw [get_cancelSchedule, h, Option.map_none]

/-- After a sync the device's waiting starts are those posted and all else is as it was; posting
the list again, while no row it has passed over is unlocked, changes nothing; and a deletion takes
the waiting starts of its source and of no other. -/
theorem syncSchedule_exact (db : Db) (hbelow : JobsBelow db) (hunique : db.KeysUnique)
    (userId : UserId) (deviceId : DeviceId) (events : List ScheduleEvent) (skip : JobId → Bool)
    (now : Time) :
    Synced db (db.syncSchedule userId deviceId events skip now) userId deviceId events skip now ∧
    (∀ skip' now', now ≤ now' → (∀ j, db.jobs.get j ≠ none → skip j = true → skip' j = true) →
      (db.syncSchedule userId deviceId events skip now).syncSchedule userId deviceId events skip'
        now' = db.syncSchedule userId deviceId events skip now) ∧
    ∀ sourceId, ':' ∉ sourceId.toList →
      CancelsSource db (db.cancelSchedule userId deviceId sourceId skip now) userId deviceId
        sourceId skip now :=
  ⟨synced_syncSchedule hbelow hunique,
    fun _ _ hnow hskip => syncSchedule_again hbelow hunique hnow hskip,
    fun _ hsource => cancelsSource_cancelSchedule hsource⟩

/-- One class's start. -/
def classStart : List ScheduleEvent :=
  [⟨"a", .inClass, 9, ⟨false, none, false, false, none, none, none, none, none, none⟩⟩]

/-- The sync of an empty table, and the class's removal. -/
theorem syncSchedule_exact_initial :
    Synced .initial (Db.initial.syncSchedule 1 2 classStart (fun _ => false) 5) 1 2 classStart
        (fun _ => false) 5 ∧
      (Db.initial.syncSchedule 1 2 classStart (fun _ => false) 5).syncSchedule 1 2 classStart
          (fun _ => false) 6 = Db.initial.syncSchedule 1 2 classStart (fun _ => false) 5 ∧
      CancelsSource .initial (Db.initial.cancelSchedule 1 2 "a" (fun _ => false) 5) 1 2 "a"
        (fun _ => false) 5 := by
  obtain ⟨hsynced, hagain, hcancels⟩ := syncSchedule_exact .initial (fun _ h => absurd rfl h)
    (fun _ _ _ _ h => by cases h) 1 2 classStart (fun _ => false) 5
  exact ⟨hsynced, hagain (fun _ => false) 6 (by decide) fun _ _ => id, hcancels "a" (by decide)⟩

end TigerDuck.Push
