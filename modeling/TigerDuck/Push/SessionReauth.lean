import Mathlib.Data.List.MinMax
import Mathlib.Data.Rat.Cast.Order
import TigerDuck.Auth.Sessions
import TigerDuck.Devices.PushTokens
import TigerDuck.Push.CourseScan
import TigerDuck.Timing.Windows
import TigerDuck.Transition.Run

/-!
# Asking a device to sign in again

The scans of `server/push/session_reauth.py`, which ask a device left without a TigerSync session to
sign in again, and the time the pipeline holds such a push until.

A scan reads the devices in one statement, and marks and files in the next two, which hold its row
locks until it commits; scans overlap, each by its own clock, and whatever else the application
writes goes on in between. The school's zone is `tz` microseconds ahead of UTC. A job carries the
scan that filed it; the columns that are the same in every such job are left out.

- `Rows.mem_sessionlessDevices_iff`: the devices without a session.
- `sendAfter_isLeast`: the pipeline's hold ends as soon as a push may go out.
- `Scan.within_of_endedAt`: how long after its session's end a device is asked.
- `Inv`: what holds of the marks and the jobs in every state.
- `asks_hold`: the pushes of every run.
-/

namespace TigerDuck.Push.SessionReauth

open Auth (SessionRevokedReason)
open Devices (PushTokenKind PushTokenStatus)
open Relational Timing Transition

/-! ### Times -/

def HOUR : Int := 60 * MINUTE

def SEEN_WITHIN : Int := 3 * DAY

def SIGN_IN_GRACE : Int := HOUR

def ANNOUNCE_SETTLE : Int := 10 * MINUTE

def UNTOUCHED : Int := 24 * HOUR

def REPEAT_AFTER : Int := 7 * DAY

def GIVE_UP_AFTER : Int := 28 * DAY

/-- `t.astimezone(school).hour`. -/
def localHour (tz t : Int) : Int := (t + tz) % DAY / HOUR

/-- Whether the hour at school is one of `_SEND_HOURS`. -/
def InSendHours (tz t : Int) : Prop := 9 ≤ localHour tz t ∧ localHour tz t < 21

instance (tz t : Int) : Decidable (InSendHours tz t) := inferInstanceAs (Decidable (_ ∧ _))

/-- The instant, or nine in the morning, of the next day where the hours of its own are over. -/
def intoSendHours (tz t : Int) : Int :=
  if InSendHours tz t then t
  else
    let day := (t + tz) / DAY + if 21 ≤ localHour tz t then 1 else 0
    day * DAY + 9 * HOUR - tz

def sendAfter (tz now announcedAt : Int) : Option Int :=
  let start := intoSendHours tz (max now (announcedAt + ANNOUNCE_SETTLE))
  if now < start then some start else none

theorem HOUR_eq : HOUR = 3600000000 := rfl

theorem DAY_eq : DAY = 86400000000 := rfl

theorem inSendHours_iff {tz t : Int} :
    InSendHours tz t ↔ 9 * HOUR ≤ (t + tz) % DAY ∧ (t + tz) % DAY < 21 * HOUR := by
  unfold InSendHours localHour
  rw [HOUR_eq, DAY_eq]
  omega

theorem intoSendHours_isLeast (tz t : Int) :
    IsLeast {u | t ≤ u ∧ InSendHours tz u} (intoSendHours tz t) := by
  unfold intoSendHours
  by_cases hopen : InSendHours tz t
  · rw [if_pos hopen]
    exact ⟨⟨le_rfl, hopen⟩, fun u hu => hu.1⟩
  · rw [if_neg hopen]
    rw [inSendHours_iff] at hopen
    have hlate : 21 ≤ localHour tz t ↔ 21 * HOUR ≤ (t + tz) % DAY := by
      unfold localHour
      rw [HOUR_eq, DAY_eq]
      omega
    simp only [IsLeast, lowerBounds, Set.mem_ofPred_eq, inSendHours_iff, hlate]
    rw [HOUR_eq, DAY_eq] at *
    -- The time of day is from 21:00 on, or before nine.
    split
    case isTrue hlate => exact ⟨by omega, fun u hu => by omega⟩
    case isFalse hearly => exact ⟨by omega, fun u hu => by omega⟩

/-- When a push to a device announced then may go out, from `now` on. -/
def sendTimes (tz now announcedAt : Int) : Set Int :=
  {t | now ≤ t ∧ announcedAt + ANNOUNCE_SETTLE ≤ t ∧ InSendHours tz t}

theorem sendAfter_isLeast (tz now announcedAt : Int) :
    IsLeast (sendTimes tz now announcedAt) ((sendAfter tz now announcedAt).getD now) := by
  obtain ⟨⟨hle, hopen⟩, hlower⟩ :=
    intoSendHours_isLeast tz (max now (announcedAt + ANNOUNCE_SETTLE))
  obtain ⟨hnow, hsettled⟩ := max_le_iff.mp hle
  have hstart : (sendAfter tz now announcedAt).getD now =
      intoSendHours tz (max now (announcedAt + ANNOUNCE_SETTLE)) := by
    unfold sendAfter
    dsimp only
    split
    case isTrue => rfl
    case isFalse hlt => exact le_antisymm hnow (not_lt.mp hlt)
  rw [hstart]
  exact ⟨⟨hnow, hsettled, hopen⟩, fun t ht => hlower ⟨max_le ht.1 ht.2.1, ht.2.2⟩⟩

/-! ### What a scan reads -/

/-- A row of `user_devices`. -/
structure UserDevice where
  userId : UserId
  clientDeviceId : String
  platform : Platform
  cloudSyncEnabled : Bool
  deleted : Bool
  sessionReauthPushedAt : Option Int
  deriving DecidableEq, Repr

/-- A row of `auth_sessions`. -/
structure AuthSession where
  userId : UserId
  deviceId : Option DeviceId
  issuedAt : Int
  expiresAt : Int
  revokedAt : Option Int
  revokedReason : Option SessionRevokedReason
  deriving DecidableEq, Repr

/-- When the session ended or will. -/
def AuthSession.ended (session : AuthSession) : Int := session.revokedAt.getD session.expiresAt

/-- A row of `device_push_tokens`. -/
structure DevicePushToken where
  deviceId : DeviceId
  tokenKind : PushTokenKind
  status : PushTokenStatus
  expiresAt : Option Int
  deriving DecidableEq, Repr

/-- The stored rows; of `device_registrations` its `updated_at`. -/
structure Rows where
  devices : Table DeviceId UserDevice
  sessions : Table Nat AuthSession
  tokens : Table Nat DevicePushToken
  registrations : Table String Int

namespace Rows

variable (rows : Rows) (now : Int) (id : DeviceId) (device : UserDevice)

/-- The device's newest session, the rivals of a duplicate refresh left out. -/
def newest : Option AuthSession :=
  let sessions := rows.sessions.select fun _ session =>
    session.deviceId = some id ∧ session.revokedReason ≠ some .superseded
  (sessions.argmax Prod.fst).map Prod.snd

/-- Whether the device has a live session. -/
def live : Bool :=
  rows.sessions.rows.any fun (_, session) =>
    decide (session.userId = device.userId ∧ session.deviceId = some id ∧
      session.revokedAt = none ∧ now < session.expiresAt)

/-- Whether the device has a token a standard push can go to. -/
def pushable : Bool :=
  rows.tokens.rows.any fun (_, token) =>
    decide (token.deviceId = id ∧ token.tokenKind = .standard ∧ token.status = .active ∧
      ∀ expiresAt ∈ token.expiresAt, now < expiresAt)

/-- The `WHERE` of `sessionless_devices`. -/
def Sessionless (announced : Int) (newest : AuthSession) : Prop :=
  device.deleted = false ∧ device.cloudSyncEnabled = true ∧ device.platform.appleHandheld = true ∧
    now - SEEN_WITHIN < announced ∧ rows.pushable now id = true ∧
      newest.revokedReason ≠ some .logout ∧
        (rows.live now id device = true ∧ newest.issuedAt + UNTOUCHED < announced ∨
          rows.live now id device = false ∧ newest.ended + SIGN_IN_GRACE < announced ∧
            now - GIVE_UP_AFTER ≤ newest.ended)

instance (announced : Int) (newest : AuthSession) :
    Decidable (rows.Sessionless now id device announced newest) :=
  inferInstanceAs (Decidable (_ ∧ _))

/-- The devices, with their users and last announce. -/
def sessionlessDevices : List (DeviceId × UserId × Int) :=
  rows.devices.rows.filterMap fun (id, device) =>
    (rows.registrations.get device.clientDeviceId).bind fun announced =>
      (rows.newest id).bind fun newest =>
        if rows.Sessionless now id device announced newest then some (id, device.userId, announced)
        else none

/-- When the device was last announced, while it is one of them. -/
def announcedWhileSessionless : Option Int :=
  ((rows.sessionlessDevices now).find? fun row => row.1 = id).map fun row => row.2.2

end Rows

/-- What a scan has read, and its clock. -/
structure Scan where
  now : Int
  rows : Rows

/-- The devices a scan finds. -/
def Scan.found (scan : Scan) : List (DeviceId × UserId × Int) :=
  (scan.rows.sessionlessDevices scan.now).filter fun row => row.2.2 ≤ scan.now - ANNOUNCE_SETTLE

/-! ### What a scan writes -/

/-- A row of `push_jobs` that a scan filed. -/
structure ReauthJob where
  userId : UserId
  deviceId : DeviceId
  scan : Scan

def ReauthJob.fireAt (job : ReauthJob) : Int := job.scan.now

/-- The device and the second, which the key names. -/
def ReauthJob.dedupeKey (job : ReauthJob) : DeviceId × Int := (job.deviceId, epochOf job.fireAt)

/-- Whether `ux_push_jobs_dedupe_active` keeps two active jobs apart. -/
def ReauthJob.conflicts (job job' : ReauthJob) : Bool :=
  decide (job.userId = job'.userId ∧ job.dedupeKey = job'.dedupeKey)

/-- The mark of a device the scan has found and may ask. -/
def Scan.mark (scan : Scan) (id : DeviceId) (device : UserDevice) : Option UserDevice :=
  if id ∈ scan.found.map Prod.fst ∧
      ∀ pushedAt ∈ device.sessionReauthPushedAt, pushedAt ≤ scan.now - REPEAT_AFTER then
    some { device with sessionReauthPushedAt := some scan.now }
  else none

/-- The jobs of the devices a scan has marked. -/
def Scan.claimed (scan : Scan) (devices : Table DeviceId UserDevice) : List ReauthJob :=
  (devices.updated scan.mark).map fun (id, device) => ⟨device.userId, id, scan⟩

/-- One row of an insert that leaves out a key some active job has. -/
def fileJob (held created : List ReauthJob) (job : ReauthJob) : List ReauthJob :=
  if (held ++ created).any (·.conflicts job) then created else created ++ [job]

/-- `file_jobs`, over the jobs filed so far and which of them are still active. -/
def fileJobs (active : ReauthJob → Bool) (filed new : List ReauthJob) : List ReauthJob :=
  filed ++ new.foldl (fileJob (filed.filter active)) []

structure World where
  rows : Rows
  /-- The scans that have read and not yet written. -/
  scans : Nat → Option Scan
  jobs : List ReauthJob

namespace World

/-- When a device was asked, oldest first. -/
def askedAt (w : World) (id : DeviceId) : List Int :=
  (w.jobs.filter fun job => job.deviceId = id).map ReauthJob.fireAt

/-- The column starts null. -/
def start (rows : Rows) : World where
  rows := { rows with devices := rows.devices.modify fun _ device =>
    { device with sessionReauthPushedAt := none } }
  scans := fun _ => none
  jobs := []

/-- Nothing else writes the marks: a row keeps its own, and a new one has none, under an id never
used. -/
def keepsMarks (w : World) (rows : Rows) : Prop :=
  ∀ row ∈ rows.devices.rows,
    (w.rows.devices.get row.1).map UserDevice.sessionReauthPushedAt =
        some row.2.sessionReauthPushedAt ∨
      row.2.sessionReauthPushedAt = none ∧ ∀ job ∈ w.jobs, job.deviceId ≠ row.1

instance (w : World) (rows : Rows) : Decidable (w.keepsMarks rows) :=
  inferInstanceAs (Decidable (∀ row ∈ rows.devices.rows, _))

end World

inductive Label
  /-- Another transaction. -/
  | edit (rows : Rows)
  /-- The read of `scan_sessionless_devices`. -/
  | select (scan : Nat) (now : Int)
  /-- Its update and insert, with the jobs that are active at the time. -/
  | claim (scan : Nat) (active : ReauthJob → Bool)

def World.select (w : World) (scan : Nat) (now : Int) : World :=
  { w with scans := Function.update w.scans scan (some ⟨now, w.rows⟩) }

def World.claim (w : World) (scan : Nat) (active : ReauthJob → Bool) (read : Scan) : World where
  rows := { w.rows with devices := w.rows.devices.update read.mark }
  scans := Function.update w.scans scan none
  jobs := fileJobs active w.jobs (read.claimed w.rows.devices)

def World.step (tz : Int) (w : World) : Label → Option World
  | .edit rows => if w.keepsMarks rows then some { w with rows } else none
  | .select scan now =>
    -- At night the scan returns before it reads.
    some (if InSendHours tz now then w.select scan now else w)
  | .claim scan active => (w.scans scan).map (w.claim scan active)

/-! ### Devices found -/

theorem Rows.mem_sessionlessDevices_iff {rows : Rows} {now announced : Int} {id : DeviceId}
    {userId : UserId} :
    (id, userId, announced) ∈ rows.sessionlessDevices now ↔
      ∃ device newest, rows.devices.get id = some device ∧ device.userId = userId ∧
        rows.registrations.get device.clientDeviceId = some announced ∧ rows.newest id = some newest ∧
          rows.Sessionless now id device announced newest := by
  simp only [sessionlessDevices, List.mem_filterMap, Option.bind_eq_some_iff, Table.get_eq_some_iff]
  constructor
  · rintro ⟨⟨id', device⟩, hdevice, announced', hannounced, newest, hnewest, hrow⟩
    split at hrow
    case isTrue hsessionless =>
      obtain ⟨rfl, rfl, rfl⟩ : id' = id ∧ device.userId = userId ∧ announced' = announced := by
        simpa using hrow
      exact ⟨device, newest, hdevice, rfl, hannounced, hnewest, hsessionless⟩
    case isFalse => cases hrow
  · rintro ⟨device, newest, hdevice, rfl, hannounced, hnewest, hsessionless⟩
    exact ⟨(id, device), hdevice, announced, hannounced, newest, hnewest, if_pos hsessionless⟩

/-- When the session of a device that has no live one ended. -/
def Scan.endedAt (scan : Scan) (id : DeviceId) : Option Int :=
  (scan.rows.devices.get id).bind fun device =>
    if scan.rows.live scan.now id device then none
    else (scan.rows.newest id).map AuthSession.ended

/-- A device is found from the grace and the settling after its session's end on, until given up. -/
theorem Scan.within_of_endedAt {scan : Scan} {id : DeviceId} {ended : Int}
    (hfound : id ∈ scan.found.map Prod.fst) (hended : scan.endedAt id = some ended) :
    ended + SIGN_IN_GRACE + ANNOUNCE_SETTLE < scan.now ∧ scan.now ≤ ended + GIVE_UP_AFTER := by
  obtain ⟨⟨id, userId, announced⟩, hrow, rfl⟩ := List.mem_map.mp hfound
  obtain ⟨hrow, hsettled⟩ := List.mem_filter.mp hrow
  have hsettled : announced ≤ scan.now - ANNOUNCE_SETTLE := of_decide_eq_true hsettled
  obtain ⟨device, newest, hdevice, -, -, hnewest, -, -, -, -, -, -, hwhich⟩ :=
    Rows.mem_sessionlessDevices_iff.mp hrow
  simp only [Scan.endedAt, hdevice, hnewest, Option.bind_some, Option.map_some] at hended
  obtain ⟨hlive, -⟩ | ⟨hlive, hgrace, hgiven⟩ := hwhich
  · rw [if_pos hlive] at hended
    cases hended
  · rw [if_neg (by simp [hlive])] at hended
    obtain rfl := Option.some.inj hended
    exact ⟨by linarith, by linarith⟩

/-- What a scan files may go out at once. -/
theorem Scan.sendAfter_of_found {tz : Int} {scan : Scan} {row : DeviceId × UserId × Int}
    (hrow : row ∈ scan.found) (hopen : InSendHours tz scan.now) :
    sendAfter tz scan.now row.2.2 = none := by
  have hsettled : row.2.2 ≤ scan.now - ANNOUNCE_SETTLE :=
    of_decide_eq_true (List.mem_filter.mp hrow).2
  have hmax : max scan.now (row.2.2 + ANNOUNCE_SETTLE) = scan.now := max_eq_left (by linarith)
  have hstart : intoSendHours tz scan.now = scan.now := if_pos hopen
  rw [sendAfter, hmax, hstart]
  exact if_neg (lt_irrefl _)

/-- While the device is without a session, the pipeline tries at once where it may, and else puts
the job back until the first time it may. -/
theorem holdSessionReauth_isLeast {tz : Int} {rows : Rows} {job : PushJob} {id : DeviceId}
    {now : Nat} {round : Round} {announcedAt : Int} (hreauth : job.isSessionReauth = true)
    (hdevice : job.deviceId = some id)
    (hround : round.announcedAt.map Nat.cast = rows.announcedWhileSessionless now id)
    (hfound : rows.announcedWhileSessionless now id = some announcedAt)
    (hsend : round.sendAfter.map Nat.cast = sendAfter tz now announcedAt) :
    IsLeast (sendTimes tz now announcedAt)
      (((job.holdSessionReauth now round).map PushJob.availableAt).getD now : Nat) := by
  have hhold : job.holdSessionReauth now round = round.sendAfter.map job.putBack := by
    obtain ⟨t, ht, -⟩ := Option.map_eq_some_iff.mp (hround.trans hfound)
    simp [PushJob.holdSessionReauth, hreauth, hdevice, ht]
  have hleast := sendAfter_isLeast tz now announcedAt
  rw [← hsend] at hleast
  rw [hhold]
  cases hround : round.sendAfter with
  | none => simpa [hround] using hleast
  | some t => simpa [hround, PushJob.putBack] using hleast

/-! ### Filing -/

/-- An insert none of whose keys an active job has files every row. -/
theorem fileJobs_eq {active : ReauthJob → Bool} {filed new : List ReauthJob}
    (hfiled : ∀ job ∈ filed, ∀ job' ∈ new, job.conflicts job' = false)
    (hnew : new.Pairwise fun job job' => job.conflicts job' = false) :
    fileJobs active filed new = filed ++ new := by
  have hall : ∀ created, (∀ job ∈ created, ∀ job' ∈ new, job.conflicts job' = false) →
      new.foldl (fileJob (filed.filter active)) created = created ++ new := by
    induction new with
    | nil => simp
    | cons job rest ih =>
      intro created hcreated
      obtain ⟨hjob, hrest⟩ := List.pairwise_cons.mp hnew
      have hfree : ((filed.filter active ++ created).any (·.conflicts job)) = false := by
        rw [List.any_eq_false]
        intro job' hmem
        rw [Bool.not_eq_true]
        rcases List.mem_append.mp hmem with hmem | hmem
        · exact hfiled job' (List.mem_filter.mp hmem).1 job List.mem_cons_self
        · exact hcreated job' hmem job List.mem_cons_self
      have hfile : fileJob (filed.filter active) created job = created ++ [job] := by
        rw [fileJob, hfree]
        rfl
      have hrestfiled : ∀ job ∈ filed, ∀ job' ∈ rest, job.conflicts job' = false :=
        fun j hj j' hj' => hfiled j hj j' (List.mem_cons_of_mem _ hj')
      rw [List.foldl_cons, hfile, ih hrestfiled hrest, List.append_assoc, List.singleton_append]
      intro job' hmem job'' hrestmem
      rcases List.mem_append.mp hmem with hmem | hmem
      · exact hcreated job' hmem job'' (List.mem_cons_of_mem _ hrestmem)
      · obtain rfl := List.mem_singleton.mp hmem
        exact hjob job'' hrestmem
  rw [fileJobs, hall [] (by simp), List.nil_append]

theorem Scan.mem_claimed_iff {scan : Scan} {devices : Table DeviceId UserDevice} {job : ReauthJob} :
    job ∈ scan.claimed devices ↔ job.scan = scan ∧ ∃ device device',
      devices.get job.deviceId = some device ∧ scan.mark job.deviceId device = some device' ∧
        job.userId = device'.userId := by
  simp only [Scan.claimed, List.mem_map, Prod.exists, Table.mem_updated_iff]
  constructor
  · rintro ⟨id, device', ⟨device, hdevice, hmark⟩, rfl⟩
    exact ⟨rfl, device, device', hdevice, hmark, rfl⟩
  · obtain ⟨userId, id, scan'⟩ := job
    rintro ⟨rfl, device, device', hdevice, hmark, rfl⟩
    exact ⟨id, device', ⟨device, hdevice, hmark⟩, rfl⟩

/-- A scan marks a device once. -/
theorem Scan.claimed_nodup (scan : Scan) (devices : Table DeviceId UserDevice) :
    ((scan.claimed devices).map ReauthJob.deviceId).Nodup := by
  rw [Scan.claimed, List.map_map]
  have hkeys := List.pairwise_map.mp devices.keys_nodup
  refine List.pairwise_map.mpr (hkeys.filterMap _ ?_)
  rintro row row' hne marked hmarked marked' hmarked'
  obtain ⟨_, -, rfl⟩ := Option.map_eq_some_iff.mp hmarked
  obtain ⟨_, -, rfl⟩ := Option.map_eq_some_iff.mp hmarked'
  exact hne

/-- The jobs of one device among those of an update. -/
theorem Scan.claimed_filter (scan : Scan) (devices : Table DeviceId UserDevice) (id : DeviceId) :
    ((scan.claimed devices).filter fun job => job.deviceId = id).map ReauthJob.fireAt =
      ((devices.get id).bind (scan.mark id)).toList.map fun _ => scan.now := by
  have hrows : ((scan.claimed devices).filter fun job => job.deviceId = id).map ReauthJob.fireAt =
      devices.rows.flatMap fun row =>
        if row.1 = id then (scan.mark row.1 row.2).toList.map fun _ => scan.now else [] := by
    rw [Scan.claimed, Table.updated]
    induction devices.rows with
    | nil => rfl
    | cons row rows ih =>
      rw [List.flatMap_cons, ← ih]
      cases hmark : scan.mark row.1 row.2 with
      | none => simp [hmark]
      | some device =>
        rw [List.filterMap_cons_some (by rw [hmark]; rfl), List.map_cons]
        by_cases hid : row.1 = id
        · simp [hid, ReauthJob.fireAt]
        · simp [hid]
  -- The device has one row at most.
  rw [hrows, Table.flatMap_rows_of_only devices id fun id' device hne => if_neg hne]
  cases devices.get id with
  | none => rfl
  | some device => simp

/-! ### What every step keeps -/

section Steps

variable {tz : Int} {w w' : World} {l : Label} {rows : Rows} {scan : Scan} {i : Nat} {id : DeviceId}
  {device : UserDevice} {active : ReauthJob → Bool}

/-- What holds of the marks and the jobs. -/
structure Inv (tz : Int) (w : World) : Prop where
  scans : ∀ i scan, w.scans i = some scan → InSendHours tz scan.now
  jobs : ∀ job ∈ w.jobs, InSendHours tz job.fireAt ∧ job.deviceId ∈ job.scan.found.map Prod.fst
  spaced : ∀ id, (w.askedAt id).Pairwise fun s t => s + REPEAT_AFTER ≤ t
  /-- A mark is the time of the device's last push. -/
  marks : ∀ id device, w.rows.devices.get id = some device →
    device.sessionReauthPushedAt = (w.askedAt id).getLast?

/-- What holds of every scan under way, once one more is. -/
theorem forall_scans_update {P : Scan → Prop} {scans : Nat → Option Scan} {next : Option Scan}
    (h : ∀ j scan, scans j = some scan → P scan) (hnext : ∀ scan, next = some scan → P scan) :
    ∀ j scan, Function.update scans i next j = some scan → P scan := by
  intro j scan hscan
  by_cases hj : j = i
  · subst hj
    rw [Function.update_self] at hscan
    exact hnext scan hscan
  · rw [Function.update_of_ne hj] at hscan
    exact h j scan hscan

/-- What a step does. -/
theorem World.step_cases (hstep : w.step tz l = some w') :
    (∃ rows, l = .edit rows ∧ w.keepsMarks rows ∧ w' = { w with rows }) ∨
    (∃ i now, l = .select i now ∧ InSendHours tz now ∧ w' = w.select i now) ∨
    (∃ i now, l = .select i now ∧ ¬InSendHours tz now ∧ w' = w) ∨
    ∃ i active scan, l = .claim i active ∧ w.scans i = some scan ∧ w' = w.claim i active scan := by
  cases l with
  | edit rows =>
    rw [World.step] at hstep
    split at hstep
    case isTrue hkeeps => exact .inl ⟨rows, rfl, hkeeps, (Option.some.inj hstep).symm⟩
    case isFalse => cases hstep
  | select i now =>
    have hnext := (Option.some.inj hstep).symm
    by_cases hopen : InSendHours tz now
    · exact .inr (.inl ⟨i, now, rfl, hopen, hnext.trans (if_pos hopen)⟩)
    · exact .inr (.inr (.inl ⟨i, now, rfl, hopen, hnext.trans (if_neg hopen)⟩))
  | claim i active =>
    obtain ⟨scan, hscan, rfl⟩ := Option.map_eq_some_iff.mp hstep
    exact .inr (.inr (.inr ⟨i, active, scan, rfl, hscan, rfl⟩))

theorem World.mem_askedAt {job : ReauthJob} (hjob : job ∈ w.jobs) :
    job.fireAt ∈ w.askedAt job.deviceId :=
  List.mem_map.mpr ⟨job, List.mem_filter.mpr ⟨hjob, decide_eq_true rfl⟩, rfl⟩

theorem Inv.start (rows : Rows) : Inv tz (World.start rows) where
  scans := nofun
  jobs := nofun
  spaced := fun _ => List.Pairwise.nil
  marks := by
    intro id device hdevice
    rw [World.start, Table.get_modify] at hdevice
    obtain ⟨_, _, rfl⟩ := Option.map_eq_some_iff.mp hdevice
    rfl

/-- Each earlier push is as far before a claim's as the last is. -/
theorem Inv.le_of_mark (h : Inv tz w) (hdevice : w.rows.devices.get id = some device)
    (hmark : ∀ pushedAt ∈ device.sessionReauthPushedAt, pushedAt ≤ scan.now - REPEAT_AFTER) :
    ∀ t ∈ w.askedAt id, t + REPEAT_AFTER ≤ scan.now := by
  intro t ht
  have hne : w.askedAt id ≠ [] := List.ne_nil_of_mem ht
  have hlast : (w.askedAt id).getLast hne ≤ scan.now - REPEAT_AFTER := by
    refine hmark _ ?_
    rw [h.marks id device hdevice]
    exact List.getLast?_eq_some_getLast hne
  have hle : t ≤ (w.askedAt id).getLast hne := by
    have hspaced := h.spaced id
    rw [← List.dropLast_concat_getLast hne] at hspaced ht
    rcases List.mem_append.mp ht with hinit | hself
    · have hapart := (List.pairwise_append.mp hspaced).2.2 t hinit _ (List.mem_singleton_self _)
      have hweek : 0 ≤ REPEAT_AFTER := by decide
      linarith
    · exact (List.mem_singleton.mp hself).le
  linarith

theorem Scan.mark_eq_some {device' : UserDevice} (h : scan.mark id device = some device') :
    id ∈ scan.found.map Prod.fst ∧
      (∀ pushedAt ∈ device.sessionReauthPushedAt, pushedAt ≤ scan.now - REPEAT_AFTER) ∧
        device' = { device with sessionReauthPushedAt := some scan.now } := by
  unfold Scan.mark at h
  split at h
  case isTrue hmay => exact ⟨hmay.1, hmay.2, (Option.some.inj h).symm⟩
  case isFalse => cases h

/-- A device may be asked again only in another second, so no key is one an active job has. -/
theorem Inv.fileJobs_claimed (h : Inv tz w) :
    fileJobs active w.jobs (scan.claimed w.rows.devices) =
      w.jobs ++ scan.claimed w.rows.devices := by
  refine fileJobs_eq ?_ ?_
  · intro job hjob job' hjob'
    obtain ⟨hscan, device, device', hdevice, hmark, -⟩ := Scan.mem_claimed_iff.mp hjob'
    refine decide_eq_false ?_
    rintro ⟨-, hkey⟩
    obtain ⟨hid, hsecond⟩ := Prod.mk.injEq .. ▸ hkey
    have hapart := h.le_of_mark hdevice (Scan.mark_eq_some hmark).2.1 _
      (hid ▸ World.mem_askedAt hjob)
    have hnow : job'.fireAt = scan.now := congrArg Scan.now hscan
    -- The key of a later push names a later second, the device being the same.
    have hlater : epochOf job.fireAt < epochOf scan.now := by
      have hweek : REPEAT_AFTER = 604800000000 := rfl
      have hunit : ((SECOND : Nat) : Int) = 1000000 := rfl
      unfold epochOf
      rw [hunit]
      omega
    rw [hnow] at hsecond
    exact hlater.ne hsecond
  · refine (List.pairwise_map.mp (scan.claimed_nodup w.rows.devices)).imp fun hne =>
      decide_eq_false ?_
    rintro ⟨-, hkey⟩
    exact hne (congrArg Prod.fst hkey)

theorem Inv.mem_jobs_claim (h : Inv tz w) {job : ReauthJob} :
    job ∈ (w.claim i active scan).jobs ↔ job ∈ w.jobs ∨ job ∈ scan.claimed w.rows.devices := by
  rw [World.claim, h.fileJobs_claimed, List.mem_append]

/-- A claim adds its time to the devices it marks. -/
theorem Inv.askedAt_claim (h : Inv tz w) (id : DeviceId) :
    (w.claim i active scan).askedAt id =
      w.askedAt id ++ ((w.rows.devices.get id).bind (scan.mark id)).toList.map fun _ => scan.now := by
  rw [World.askedAt, World.claim, h.fileJobs_claimed, List.filter_append, List.map_append,
    Scan.claimed_filter]
  rfl

theorem Inv.edit (h : Inv tz w) (hkeeps : w.keepsMarks rows) : Inv tz { w with rows } where
  scans := h.scans
  jobs := h.jobs
  spaced := h.spaced
  marks := by
    intro id device hdevice
    obtain hkept | ⟨hnone, hfresh⟩ := hkeeps (id, device) ((Table.get_eq_some_iff ..).mp hdevice)
    · obtain ⟨before, hbefore, heq⟩ := Option.map_eq_some_iff.mp hkept
      rw [← heq]
      exact h.marks id before hbefore
    · have hnever : (w.jobs.filter fun job => job.deviceId = id) = [] :=
        List.filter_eq_nil_iff.mpr fun job hjob => by simpa using hfresh job hjob
      show device.sessionReauthPushedAt = (List.map _ (w.jobs.filter _)).getLast?
      rw [hnever, hnone]
      rfl

theorem Inv.select {now : Int} (h : Inv tz w) (hopen : InSendHours tz now) :
    Inv tz (w.select i now) where
  scans := forall_scans_update h.scans fun scan hscan => by
    obtain rfl := Option.some.inj hscan
    exact hopen
  jobs := h.jobs
  spaced := h.spaced
  marks := h.marks

theorem Inv.claim (h : Inv tz w) (hscan : w.scans i = some scan) :
    Inv tz (w.claim i active scan) := by
  constructor
  case scans => exact forall_scans_update h.scans (by simp)
  case jobs =>
    intro job hjob
    rcases h.mem_jobs_claim.mp hjob with hold | hnew
    · exact h.jobs job hold
    · obtain ⟨rfl, device, device', -, hmark, -⟩ := Scan.mem_claimed_iff.mp hnew
      exact ⟨h.scans i _ hscan, (Scan.mark_eq_some hmark).1⟩
  case spaced =>
    intro id
    rw [h.askedAt_claim]
    cases hmarked : (w.rows.devices.get id).bind (scan.mark id) with
    | none => simpa using h.spaced id
    | some device' =>
      obtain ⟨device, hdevice, hmark⟩ := Option.bind_eq_some_iff.mp hmarked
      refine List.pairwise_append.mpr ⟨h.spaced id, List.pairwise_singleton _ _, ?_⟩
      intro t ht u hu
      rw [List.mem_singleton.mp hu]
      exact h.le_of_mark hdevice (Scan.mark_eq_some hmark).2.1 t ht
  case marks =>
    intro id device' hdevice'
    rw [World.claim, Table.get_update] at hdevice'
    obtain ⟨device, hdevice, rfl⟩ := Option.map_eq_some_iff.mp hdevice'
    rw [h.askedAt_claim, hdevice, Option.bind_some]
    cases hmark : scan.mark id device with
    | none => simpa using h.marks id device hdevice
    | some marked =>
      rw [(Scan.mark_eq_some hmark).2.2]
      simp

theorem Inv.step (h : Inv tz w) (hstep : w.step tz l = some w') : Inv tz w' := by
  obtain ⟨rows, -, hkeeps, rfl⟩ | ⟨i, now, -, hopen, rfl⟩ | ⟨i, now, -, -, rfl⟩ |
    ⟨i, active, scan, -, hscan, rfl⟩ := World.step_cases hstep
  · exact h.edit hkeeps
  · exact h.select hopen
  · exact h
  · exact h.claim hscan

end Steps

/-! ### The pushes of a run -/

/-- Whether a step is the scan's read. -/
def Scan.IsRead (scan : Scan) (w : World) : Label → Prop
  | .select _ now => now = scan.now ∧ w.rows = scan.rows
  | _ => False

/-- What holds of the pushes filed in a run. -/
structure Asks (tz : Int) (rows : Rows) (labels : List Label) (w : World) : Prop where
  /-- A device is asked again no sooner than seven days later, -/
  spaced : ∀ id, (w.askedAt id).Pairwise fun s t => s + REPEAT_AFTER ≤ t
  /-- at most `n` times in `n` weeks, -/
  rate : ∀ id (n : Nat) a,
    (w.askedAt id).countP (fun t => decide (a ≤ t ∧ t < a + n * REPEAT_AFTER)) ≤ n
  /-- and at most four times after the end of one session. -/
  gaveUp : ∀ id ended,
    (w.jobs.countP fun job => decide (job.deviceId = id ∧ job.scan.endedAt id = some ended)) ≤ 4
  /-- A mark stands for a push that was filed, the device's last. -/
  marks : ∀ id device, w.rows.devices.get id = some device →
    device.sessionReauthPushedAt = (w.askedAt id).getLast?
  /-- A push is filed in the hours at school, for a device its scan found in the rows it read. -/
  founded : ∀ job ∈ w.jobs, InSendHours tz job.fireAt ∧ job.deviceId ∈ job.scan.found.map Prod.fst ∧
    Ever (World.step tz) job.scan.IsRead (World.start rows) labels

section Runs

variable {tz : Int} {rows : Rows} {labels : List Label} {w : World}

theorem Inv.run (hrun : FreeRun (World.step tz) (World.start rows) labels w) : Inv tz w :=
  hrun.invariant (Inv tz) (Inv.start rows) fun _ _ _ h _ hstep => h.step hstep

/-- By induction on the run, over the scans under way and the ones that have filed. -/
theorem scans_isRead (hrun : FreeRun (World.step tz) (World.start rows) labels w) :
    (∀ i scan, w.scans i = some scan →
      Ever (World.step tz) scan.IsRead (World.start rows) labels) ∧
    ∀ job ∈ w.jobs, Ever (World.step tz) job.scan.IsRead (World.start rows) labels := by
  induction hrun with
  | nil => exact ⟨nofun, nofun⟩
  | @snoc labels w l w' hrun _ hstep ih =>
    have hscans : ∀ i scan, w.scans i = some scan →
        Ever (World.step tz) scan.IsRead (World.start rows) (labels ++ [l]) :=
      fun i scan hscan => (ih.1 i scan hscan).snoc l
    have hjobs : ∀ job ∈ w.jobs,
        Ever (World.step tz) job.scan.IsRead (World.start rows) (labels ++ [l]) :=
      fun job hjob => (ih.2 job hjob).snoc l
    obtain ⟨rows', -, -, rfl⟩ | ⟨i, now, rfl, -, rfl⟩ | ⟨i, now, -, -, rfl⟩ |
      ⟨i, active, read, -, hread, rfl⟩ := World.step_cases hstep
    · exact ⟨hscans, hjobs⟩
    · refine ⟨forall_scans_update hscans fun scan hscan => ?_, hjobs⟩
      obtain rfl := Option.some.inj hscan
      exact Ever.last hrun.exec_eq ⟨rfl, rfl⟩
    · exact ⟨hscans, hjobs⟩
    · refine ⟨forall_scans_update hscans (by simp), fun job hjob => ?_⟩
      rcases (Inv.run hrun).mem_jobs_claim.mp hjob with hold | hnew
      · exact hjobs job hold
      · rw [(Scan.mem_claimed_iff.mp hnew).1]
        exact hscans i read hread

/-- Pushes a week apart that all lie within less than `n` weeks are at most `n`. -/
theorem length_le_of_weeks {ts : List Int} (h : ts.Pairwise fun s t => s + REPEAT_AFTER ≤ t)
    {n : Nat} (hwithin : ∀ s ∈ ts, ∀ t ∈ ts, t - s < n * REPEAT_AFTER) : ts.length ≤ n := by
  have hspaced : Spaced (REPEAT_AFTER : ℚ) (ts.map Int.cast) := by
    refine List.pairwise_map.mpr (h.imp fun hst => ?_)
    exact_mod_cast hst
  have hweek : (0 : ℚ) < REPEAT_AFTER := by
    have : (0 : Int) < REPEAT_AFTER := by decide
    exact_mod_cast this
  have hlength : (ts.map (Int.cast : Int → ℚ)).length ≤ n := by
    refine hspaced.length_le_of_window hweek ?_
    simp only [List.mem_map]
    rintro _ ⟨s, hs, rfl⟩ _ ⟨t, ht, rfl⟩
    exact_mod_cast hwithin s hs t ht
  rwa [List.length_map] at hlength

/-- **A device is asked to sign in again once a week at most**, however the scans overlap. -/
theorem asks_hold (hrun : FreeRun (World.step tz) (World.start rows) labels w) :
    Asks tz rows labels w := by
  have h : Inv tz w := Inv.run hrun
  constructor
  case spaced => exact h.spaced
  case marks => exact h.marks
  case founded =>
    intro job hjob
    obtain ⟨hopen, hfound⟩ := h.jobs job hjob
    exact ⟨hopen, hfound, (scans_isRead hrun).2 job hjob⟩
  case rate =>
    intro id n a
    rw [List.countP_eq_length_filter]
    refine length_le_of_weeks ((h.spaced id).sublist List.filter_sublist) fun s hs t ht => ?_
    have hs := of_decide_eq_true (List.mem_filter.mp hs).2
    have ht := of_decide_eq_true (List.mem_filter.mp ht).2
    linarith
  case gaveUp =>
    intro id ended
    rw [List.countP_eq_length_filter, ← List.length_map ReauthJob.fireAt]
    refine length_le_of_weeks ((h.spaced id).sublist ?_) ?_
    · refine List.Sublist.map _ (List.monotone_filter_right _ fun job hjob => ?_)
      exact decide_eq_true (of_decide_eq_true hjob).1
    · have hwithin : ∀ t ∈ (w.jobs.filter fun job =>
          decide (job.deviceId = id ∧ job.scan.endedAt id = some ended)).map ReauthJob.fireAt,
          ended + SIGN_IN_GRACE + ANNOUNCE_SETTLE < t ∧ t ≤ ended + GIVE_UP_AFTER := by
        intro t ht
        obtain ⟨job, hpicked, rfl⟩ := List.mem_map.mp ht
        obtain ⟨hjob, hpicked⟩ := List.mem_filter.mp hpicked
        obtain ⟨rfl, hended⟩ := of_decide_eq_true hpicked
        exact Scan.within_of_endedAt (h.jobs job hjob).2 hended
      -- The four weeks less the grace are no full four weeks.
      have hwindow : GIVE_UP_AFTER - SIGN_IN_GRACE - ANNOUNCE_SETTLE <
          ((4 : Nat) : Int) * REPEAT_AFTER := by
        decide
      intro s hs t ht
      have hs := (hwithin s hs).1
      have ht := (hwithin t ht).2
      linarith

end Runs

/-- An hour before noon in Taipei. -/
def forenoon : Int := 20000 * DAY + 3 * HOUR

/-- An iPhone whose session was refused as reused, with its mark and its last announce. -/
def refusedPhone (pushedAt : Option Int) (announced : Int) : Rows where
  devices := ⟨[(1, ⟨7, "phone", .ios, true, false, pushedAt⟩)], List.nodup_singleton _⟩
  sessions := ⟨[(1, ⟨7, some 1, forenoon - 9 * HOUR, forenoon + 60 * DAY, some (forenoon - 2 * HOUR),
    some .reuseDetected⟩)], List.nodup_singleton _⟩
  tokens := ⟨[(1, ⟨1, .standard, .active, none⟩)], List.nodup_singleton _⟩
  registrations := ⟨[("phone", announced)], List.nodup_singleton _⟩

/-- Two scans overlap, and do so again a week later. -/
def overlaps : List Label :=
  [.select 0 forenoon, .select 1 (forenoon + 1), .claim 1 fun _ => true, .claim 0 fun _ => true,
    .edit (refusedPhone (some (forenoon + 1)) (forenoon + 7 * DAY - 15 * MINUTE)),
    .select 0 (forenoon + 7 * DAY), .select 1 (forenoon + 7 * DAY + 1), .claim 0 fun _ => true,
    .claim 1 fun _ => true]

/-- One scan of each two files, the one that comes a week after the last. -/
theorem asks_hold_of_overlaps :
    ∃ w : World, exec (World.step (8 * HOUR))
        (World.start (refusedPhone none (forenoon - 15 * MINUTE))) overlaps = some w ∧
      w.askedAt 1 = [forenoon + 1, forenoon + 7 * DAY + 1] ∧
      Asks (8 * HOUR) (refusedPhone none (forenoon - 15 * MINUTE)) overlaps w := by
  have hasked : (exec (World.step (8 * HOUR))
      (World.start (refusedPhone none (forenoon - 15 * MINUTE))) overlaps).map (World.askedAt · 1) =
        some [forenoon + 1, forenoon + 7 * DAY + 1] := by
    decide +kernel
  obtain ⟨w, hw, hasked⟩ := Option.map_eq_some_iff.mp hasked
  exact ⟨w, hw, hasked, asks_hold (run_of_exec hw)⟩

end TigerDuck.Push.SessionReauth
