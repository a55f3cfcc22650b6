import TigerDuck.Relational.Table
import TigerDuck.Sync.Merge
import TigerDuck.Transition.RowLock
import TigerDuck.Transition.Run

/-!
# Bulletin states

`PUT /v3/bulletin-states/{bulletin_id}` (`put_state` and `apply_field_boolean` in
`server/routes/bulletins_v3.py`): what a user has read, starred and hidden, each flag with the
stamp and the device of the edit that set it. A statement or a commit is a step. A request that
inserts the row holds its key until it ends; the row it then reads is not locked, so another
request may commit between its read and its write.

Stamps are whole microseconds from the epoch, which a client's clock may put before it. The users,
the devices and the bulletins are not deleted; `updated_at` is left out.

## Main results

- `mergeState_get`: what a request makes of each flag it has read.
- `lastWriter_iff`: every flag keeps the value of the committed edit with the greatest stamp in
  exactly the runs where each commit finds the flags it writes no later than its own edits.
- `flag_of_commit`: a commit leaves every flag alone that its request has not set.
- `older_edit_wins`: of two edits that overlap, the older may stay.
-/

namespace TigerDuck.Bulletins.States

open Relational Transition

/-- A `users.id`. -/
abbrev UserId := Nat

/-- A `bulletins.id`. -/
abbrev BulletinId := Nat

/-- A running transaction. -/
abbrev TxnId := Nat

/-- A time in microseconds from the Unix epoch. -/
abbrev Stamp := Int

/-- The merged fields of a row. -/
inductive StateField
  | read
  | starred
  | hidden
  deriving DecidableEq, Repr

/-- The fields in the order `put_state` merges them. -/
def StateField.all : List StateField := [.read, .starred, .hidden]

/-- The name of a field's value column. -/
def StateField.column : StateField → String
  | .read => "is_read"
  | .starred => "is_starred"
  | .hidden => "is_hidden"

/-- A merged field: `is_<field>`, `<field>_updated_at` and `<field>_device_id`. -/
structure Flag where
  value : Bool
  updatedAt : Option Stamp
  deviceId : Option DeviceId
  deriving DecidableEq, Repr

/-- A flag as the row is inserted. -/
def Flag.unset : Flag := ⟨false, none, none⟩

/-- A row of `user_bulletin_states`. -/
structure UserBulletinState where
  read : Flag
  starred : Flag
  hidden : Flag
  firstReadAt : Option Stamp
  deriving DecidableEq, Repr

namespace UserBulletinState

/-- A row as it is inserted. -/
def fresh : UserBulletinState := ⟨.unset, .unset, .unset, none⟩

/-- The flag of a field. -/
def get (s : UserBulletinState) : StateField → Flag
  | .read => s.read
  | .starred => s.starred
  | .hidden => s.hidden

/-- Write the flag of a field. -/
def set (s : UserBulletinState) (f : StateField) (flag : Flag) : UserBulletinState :=
  match f with
  | .read => { s with read := flag }
  | .starred => { s with starred := flag }
  | .hidden => { s with hidden := flag }

theorem get_set (s : UserBulletinState) (f f' : StateField) (flag : Flag) :
    (s.set f flag).get f' = if f' = f then flag else s.get f' := by
  cases f <;> cases f' <;> rfl

@[simp]
theorem get_fresh (f : StateField) : fresh.get f = .unset := by
  cases f <;> rfl

end UserBulletinState

/-! ### What a request makes of the row -/

/-- The body of a request: a field whose `<field>_updated_at` is present is edited. -/
structure BulletinStatePut where
  isRead : Option Bool
  readUpdatedAt : Option Stamp
  isStarred : Option Bool
  starredUpdatedAt : Option Stamp
  isHidden : Option Bool
  hiddenUpdatedAt : Option Stamp
  deriving DecidableEq, Repr

/-- The value sent for a field. -/
def BulletinStatePut.value (payload : BulletinStatePut) : StateField → Option Bool
  | .read => payload.isRead
  | .starred => payload.isStarred
  | .hidden => payload.isHidden

/-- The time sent for a field. -/
def BulletinStatePut.updatedAt (payload : BulletinStatePut) : StateField → Option Stamp
  | .read => payload.readUpdatedAt
  | .starred => payload.starredUpdatedAt
  | .hidden => payload.hiddenUpdatedAt

/-- A request: whose it is, of which bulletin, from which device. -/
structure Request where
  userId : UserId
  bulletinId : BulletinId
  deviceId : Option DeviceId
  payload : BulletinStatePut
  deriving DecidableEq, Repr

/-- The row of a user and a bulletin. -/
abbrev StateKey := UserId × BulletinId

/-- The row a request is about. -/
def Request.key (req : Request) : StateKey := (req.userId, req.bulletinId)

/-- `clamp_ts` with no skew. -/
def clampTs (clientTs now : Stamp) : Stamp := min clientTs now

/-- Whether the stored stamp keeps an edit out. -/
def Flag.Keeps (flag : Flag) (effectiveTs : Stamp) : Prop :=
  ∃ stored ∈ flag.updatedAt, effectiveTs ≤ stored

instance (flag : Flag) (effectiveTs : Stamp) : Decidable (flag.Keeps effectiveTs) :=
  inferInstanceAs (Decidable (∃ stored ∈ flag.updatedAt, effectiveTs ≤ stored))

/-- `apply_field_boolean`. -/
def applyFieldBoolean (flag : Flag) (value : Bool) (ts : Stamp) (deviceId : Option DeviceId)
    (now : Stamp) : Flag :=
  let effectiveTs := clampTs ts now
  if flag.Keeps effectiveTs then flag else ⟨value, some effectiveTs, deviceId⟩

/-- The merge of one field, with the time of the first reading. -/
def Request.mergeField (req : Request) (now : Stamp) (state : UserBulletinState)
    (f : StateField) : Except HttpError UserBulletinState :=
  match req.payload.updatedAt f, req.payload.value f with
  | none, _ => .ok state
  | some _, none => .error ⟨422, s!"{f.column} cannot be null"⟩
  | some ts, some value =>
    let merged := state.set f (applyFieldBoolean (state.get f) value ts req.deviceId now)
    if f = .read ∧ merged.read.value ∧ merged.firstReadAt = none then
      .ok { merged with firstReadAt := some now }
    else .ok merged

/-- The row as `put_state` answers it, or its refusal. -/
def Request.mergeState (req : Request) (now : Stamp) (state : UserBulletinState) :
    Except HttpError UserBulletinState :=
  StateField.all.foldlM (req.mergeField now) state

/-! ### The transactions -/

/-- How far a request has come. -/
inductive Phase
  /-- The bulletin is public. -/
  | found
  /-- The row is stored, by the request itself or by another. -/
  | ensured
  /-- The row is read and merged in the session. -/
  | merged (now : Stamp) (read after : UserBulletinState)
  deriving DecidableEq, Repr

/-- A request under way. -/
structure Txn where
  request : Request
  phase : Phase
  deriving DecidableEq, Repr

/-- An edit of a committed request, with its clamped stamp. -/
structure Edit where
  key : StateKey
  field : StateField
  value : Bool
  stamp : Stamp
  deriving DecidableEq, Repr

/-- The edit a request made at `now` carries for a field. -/
def Request.edit (req : Request) (now : Stamp) (f : StateField) : Option Edit :=
  (req.payload.updatedAt f).bind fun ts =>
    (req.payload.value f).map fun value => ⟨req.key, f, value, clampTs ts now⟩

/-- The database, with the answers given and the edits committed. -/
structure Db where
  states : Table StateKey UserBulletinState
  txns : TxnId → Option Txn
  inserting : RowLocks StateKey TxnId
  answers : TxnId → Option (Except HttpError UserBulletinState)
  edits : List Edit

namespace Db

/-- No row and no request. -/
def initial : Db := ⟨.empty, fun _ => none, .free, fun _ => none, []⟩

/-- A request goes on. -/
def setPhase (db : Db) (t : TxnId) (req : Request) (phase : Phase) : Db :=
  { db with txns := Function.update db.txns t (some ⟨req, phase⟩) }

/-- A transaction ends. -/
def finish (db : Db) (t : TxnId) : Db :=
  { db with txns := Function.update db.txns t none, inserting := db.inserting.release t }

/-- A request is answered. -/
def answer (db : Db) (t : TxnId) (a : Except HttpError UserBulletinState) : Db :=
  { db with answers := Function.update db.answers t (some a) }

/-- The row a request reads: the stored one, or the one it has inserted itself. -/
def visible (db : Db) (t : TxnId) (key : StateKey) : Option UserBulletinState :=
  if db.inserting key = some t then some .fresh else db.states.get key

/-- The row of a key, as one that is inserted where none is stored. -/
def row (db : Db) (key : StateKey) : UserBulletinState := (db.states.get key).getD .fresh

/-- The committed edits of a field of a row. -/
def editsOf (db : Db) (key : StateKey) (f : StateField) : List Edit :=
  db.edits.filter fun e => e.key = key ∧ e.field = f

end Db

/-- A flag once the columns that differ from what was read are written. -/
def Flag.written (read after current : Flag) : Flag where
  value := writeColumn read.value after.value current.value
  updatedAt := writeColumn read.updatedAt after.updatedAt current.updatedAt
  deviceId := writeColumn read.deviceId after.deviceId current.deviceId

/-- The row once the columns that differ from what was read are written. -/
def UserBulletinState.written (read after current : UserBulletinState) : UserBulletinState where
  read := Flag.written read.read after.read current.read
  starred := Flag.written read.starred after.starred current.starred
  hidden := Flag.written read.hidden after.hidden current.hidden
  firstReadAt := writeColumn read.firstReadAt after.firstReadAt current.firstReadAt

/-- What can happen. -/
inductive Label
  /-- A request arrives and looks up its bulletin. -/
  | put (t : TxnId) (req : Request) (isPublic : Bool)
  /-- `INSERT … ON CONFLICT DO NOTHING`, which waits for whoever is inserting the key. -/
  | insert (t : TxnId)
  /-- `SELECT` and the merge, at `now`. -/
  | merge (t : TxnId) (now : Stamp)
  /-- The changed columns are written and committed. -/
  | commit (t : TxnId)
  /-- The transaction is rolled back: a lost connection, a timeout. -/
  | abort (t : TxnId)
  deriving DecidableEq, Repr

/-- One step. -/
def step (db : Db) : Label → Option Db
  | .put t req isPublic =>
    if db.txns t ≠ none then none
    else if isPublic then some (db.setPhase t req .found)
    else some (db.answer t (.error ⟨404, "bulletin not found"⟩))
  | .insert t =>
    match db.txns t with
    | some ⟨req, .found⟩ =>
      if db.inserting.Available t req.key then
        let db' := db.setPhase t req .ensured
        some (if db.states.get req.key = none then
          { db' with inserting := db.inserting.lock t req.key } else db')
      else none
    | _ => none
  | .merge t now =>
    match db.txns t with
    | some ⟨req, .ensured⟩ => (db.visible t req.key).map fun read =>
        match req.mergeState now read with
        | .ok after => db.setPhase t req (.merged now read after)
        | .error e => (db.answer t (.error e)).finish t
    | _ => none
  | .commit t =>
    match db.txns t with
    | some ⟨req, .merged now read after⟩ =>
      let write := UserBulletinState.written read after
      some
        { (db.answer t (.ok after)).finish t with
          states := if db.inserting req.key = some t then db.states.set req.key (write .fresh)
            else db.states.modify fun key s => if key = req.key then write s else s
          edits := db.edits ++ StateField.all.filterMap (req.edit now) }
    | _ => none
  | .abort t => if db.txns t = none then none else some (db.finish t)

/-! ### The merge -/

section Merge

variable {req : Request} {now : Stamp} {s s' : UserBulletinState} {f f' : StateField}

/-- The flag a request makes of the one it has read. -/
def Request.flag (req : Request) (now : Stamp) (flag : Flag) (f : StateField) : Flag :=
  match req.edit now f with
  | none => flag
  | some e => if flag.Keeps e.stamp then flag else ⟨e.value, some e.stamp, req.deviceId⟩

/-- The merge of a field sets its flag and no other. -/
theorem mergeField_get (h : req.mergeField now s f = .ok s') :
    s'.get f' = if f' = f then req.flag now (s.get f) f else s.get f' := by
  unfold Request.mergeField at h
  unfold Request.flag Request.edit
  split at h
  next hts =>
    cases h
    rw [hts]
    split
    next hf => rw [hf]; rfl
    next => rfl
  next => cases h
  next ts value hts hvalue =>
    rw [hts, hvalue]
    -- The time of the first reading is no flag.
    have hget : s'.get f' =
        (s.set f (applyFieldBoolean (s.get f) value ts req.deviceId now)).get f' := by
      dsimp only at h
      split at h <;> cases h
      · cases f' <;> rfl
      · rfl
    rw [hget, UserBulletinState.get_set]
    rfl

/-- The merge of some fields sets their flags, each from what was read. -/
theorem mergeFields_get {fs : List StateField} (hfs : fs.Nodup)
    (h : fs.foldlM (req.mergeField now) s = .ok s') :
    s'.get f = if f ∈ fs then req.flag now (s.get f) f else s.get f := by
  induction fs generalizing s with
  | nil => cases h; simp
  | cons g fs ih =>
    rw [List.foldlM_cons] at h
    obtain ⟨hg, hfs⟩ := List.nodup_cons.mp hfs
    cases hmerge : req.mergeField now s g with
    | error e => rw [hmerge] at h; cases h
    | ok s₁ =>
      rw [hmerge] at h
      rw [ih hfs h, mergeField_get hmerge]
      by_cases hfg : f = g
      · subst hfg
        simp [hg]
      · simp [hfg]

/-- What a request makes of each flag it has read. -/
theorem mergeState_get (h : req.mergeState now s = .ok s') (f : StateField) :
    s'.get f = req.flag now (s.get f) f := by
  rw [mergeFields_get (by decide) h, if_pos]
  cases f <;> decide

end Merge

/-! ### What a commit writes -/

section Written

variable {read after current : UserBulletinState} {f : StateField}

theorem get_written :
    (UserBulletinState.written read after current).get f =
      Flag.written (read.get f) (after.get f) (current.get f) := by
  cases f <;> rfl

/-- A flag the request leaves as it has read it stays as it is stored. -/
theorem Flag.written_read (read current : Flag) : Flag.written read read current = current := by
  simp [Flag.written, writeColumn]

/-- The stamp of an edit that is let in is always written. -/
theorem updatedAt_written {read current : Flag} {stamp : Stamp} {value : Bool}
    {deviceId : Option DeviceId} (h : ¬ read.Keeps stamp) :
    (Flag.written read ⟨value, some stamp, deviceId⟩ current).updatedAt = some stamp := by
  have hne : some stamp ≠ read.updatedAt := fun heq => h ⟨stamp, heq ▸ rfl, Int.le_refl _⟩
  exact if_neg hne

end Written

/-! ### Last writer wins -/

/-- The flag holds the value of an edit with the greatest stamp, or is unset where there is no
edit. -/
def Flag.Greatest (flag : Flag) (edits : List Edit) : Prop :=
  (edits = [] ∧ flag.value = false ∧ flag.updatedAt = none) ∨
    ∃ e ∈ edits, (∀ e' ∈ edits, e'.stamp ≤ e.stamp) ∧ flag.value = e.value ∧
      flag.updatedAt = some e.stamp

/-- Every flag holds the value of the committed edit with the greatest stamp. -/
def Db.LastWriter (db : Db) : Prop := ∀ key f, ((db.row key).get f).Greatest (db.editsOf key f)

/-- The stored flag is no later than the edit about to be written, which was let in where `read`
was stored; and where it is earlier, the value is the edit's if it is not written. -/
def Flag.Admits (current read : Flag) (e : Edit) : Prop :=
  (∀ stored ∈ current.updatedAt, stored ≤ e.stamp) ∧
    ((∀ stored ∈ current.updatedAt, stored < e.stamp) → e.value = read.value →
      current.value = e.value)

/-- A commit finds every flag it writes no later than its own edit. -/
def InTime (db : Db) : Label → Prop
  | .commit t => ∀ req now read after, db.txns t = some ⟨req, .merged now read after⟩ →
      ∀ f, ∀ e ∈ req.edit now f, ¬ (read.get f).Keeps e.stamp →
        ((db.row req.key).get f).Admits (read.get f) e
  | _ => True

section Greatest

variable {current read : Flag} {edits : List Edit} {e : Edit} {deviceId : Option DeviceId}

/-- An edit not later than one that is committed changes nothing. -/
theorem Flag.Greatest.append_of_le (h : current.Greatest edits)
    (hle : ∃ e' ∈ edits, e.stamp ≤ e'.stamp) : current.Greatest (edits ++ [e]) := by
  obtain ⟨e', he', hstamp⟩ := hle
  rcases h with ⟨rfl, _⟩ | ⟨top, htop, hmax, hvalue⟩
  · cases he'
  · refine .inr ⟨top, by simp [htop], fun other hother => ?_, hvalue⟩
    rcases List.mem_append.mp hother with hold | hnew
    · exact hmax other hold
    · obtain rfl := List.mem_singleton.mp hnew
      exact hstamp.trans (hmax e' he')

/-- The stamp stored is the greatest committed. -/
theorem Flag.Greatest.le_updatedAt (h : current.Greatest edits) {e' : Edit} (he' : e' ∈ edits) :
    ∃ stored ∈ current.updatedAt, e'.stamp ≤ stored := by
  rcases h with ⟨rfl, _⟩ | ⟨top, _, hmax, _, hstamp⟩
  · cases he'
  · exact ⟨top.stamp, hstamp, hmax e' he'⟩

/-- Writing an edit that was let in keeps the greatest edit exactly where the stored flag admits
it. -/
theorem Flag.Greatest.written_iff (h : current.Greatest edits) (hread : ¬ read.Keeps e.stamp) :
    (Flag.written read ⟨e.value, some e.stamp, deviceId⟩ current).Greatest (edits ++ [e]) ↔
      current.Admits read e := by
  have hstamp : (Flag.written read ⟨e.value, some e.stamp, deviceId⟩ current).updatedAt =
      some e.stamp := updatedAt_written hread
  have hvalue : (Flag.written read ⟨e.value, some e.stamp, deviceId⟩ current).value =
      if e.value = read.value then current.value else e.value := rfl
  constructor
  · rintro (⟨hnil, _⟩ | ⟨top, htop, hmax, htopValue, htopStamp⟩)
    · simp at hnil
    · have heq : top.stamp = e.stamp := Option.some.inj (htopStamp.symm.trans hstamp)
      refine ⟨fun stored hstored => ?_, fun hearlier hsame => ?_⟩
      · -- The stored stamp is a committed edit's.
        rcases h with ⟨_, _, hnone⟩ | ⟨old, hold, _, _, hold'⟩
        · rw [hnone] at hstored
          cases hstored
        · obtain rfl : old.stamp = stored := Option.some.inj (hold'.symm.trans hstored)
          exact heq ▸ hmax old (by simp [hold])
      · -- Only the new edit has its stamp.
        have hnew : top = e := by
          rcases List.mem_append.mp htop with hold | hnew
          · obtain ⟨stored, hstored, hle⟩ := h.le_updatedAt hold
            exact absurd (hearlier stored hstored) (Int.not_lt.mpr (heq ▸ hle))
          · exact List.mem_singleton.mp hnew
        rw [hvalue, if_pos hsame, hnew] at htopValue
        exact htopValue
  · rintro ⟨hle, hsame⟩
    have hall : ∀ e' ∈ edits ++ [e], e'.stamp ≤ e.stamp := by
      intro e' he'
      rcases List.mem_append.mp he' with hold | hnew
      · obtain ⟨stored, hstored, hle'⟩ := h.le_updatedAt hold
        exact hle'.trans (hle stored hstored)
      · rw [List.mem_singleton.mp hnew]
    by_cases hwritten : e.value = read.value ∧ ∃ stored ∈ current.updatedAt, stored = e.stamp
    · -- At equal stamps the stored value stays, and is a greatest edit's too.
      obtain ⟨hunwritten, stored, hstored, rfl⟩ := hwritten
      rcases h with ⟨_, _, hnone⟩ | ⟨old, hold, _, holdValue, holdStamp⟩
      · rw [hnone] at hstored
        cases hstored
      · have heq : old.stamp = e.stamp := Option.some.inj (holdStamp.symm.trans hstored)
        refine .inr ⟨old, by simp [hold], heq ▸ hall, ?_, heq ▸ hstamp⟩
        rw [hvalue, if_pos hunwritten, holdValue]
    · refine .inr ⟨e, by simp, hall, ?_, hstamp⟩
      rw [hvalue]
      split
      next hunwritten =>
        refine hsame (fun stored hstored => ?_) hunwritten
        have hne : stored ≠ e.stamp := fun heq => hwritten ⟨hunwritten, stored, hstored, heq⟩
        exact lt_of_le_of_ne (hle stored hstored) hne
      next => rfl

end Greatest

/-! ### What every step keeps -/

/-- What holds in every reachable state. -/
structure Db.Sound (db : Db) : Prop where
  /-- A stored stamp is a committed edit's. -/
  stamps : ∀ key f, ∀ s ∈ ((db.row key).get f).updatedAt, ∃ e ∈ db.editsOf key f, e.stamp = s
  /-- The row of a request that is inserting is not yet stored. -/
  inserting : ∀ key t, db.inserting key = some t → db.states.get key = none
  /-- A request holds the key of its own row. -/
  own : ∀ key t, db.inserting key = some t → ∃ txn, db.txns t = some txn ∧ txn.request.key = key
  /-- A request past its insert finds its row. -/
  ensured : ∀ t txn, db.txns t = some txn → txn.phase ≠ .found →
    db.inserting txn.request.key = some t ∨ db.states.get txn.request.key ≠ none
  /-- A request merges into a row that was stored. -/
  merged : ∀ t req now read after, db.txns t = some ⟨req, .merged now read after⟩ →
    req.mergeState now read = .ok after ∧
      ∀ f, ∀ s ∈ (read.get f).updatedAt, ∃ e ∈ db.editsOf req.key f, e.stamp = s

variable {db db' : Db} {l : Label} {t : TxnId} {key : StateKey} {f : StateField}

/-- What a commit does. -/
structure Commits (db db' : Db) (t : TxnId) (req : Request) (now : Stamp)
    (read after : UserBulletinState) : Prop where
  txn : db.txns t = some ⟨req, .merged now read after⟩
  txns : db'.txns = Function.update db.txns t none
  inserting : db'.inserting = db.inserting.release t
  edits : db'.edits = db.edits ++ StateField.all.filterMap (req.edit now)
  states : db'.states = if db.inserting req.key = some t then
      db.states.set req.key (UserBulletinState.written read after .fresh)
    else db.states.modify fun key s =>
      if key = req.key then UserBulletinState.written read after s else s

theorem commits_of_step (h : step db (.commit t) = some db') :
    ∃ req now read after, Commits db db' t req now read after := by
  simp only [step] at h
  split at h
  next req now read after htxn => cases h; exact ⟨req, now, read, after, htxn, rfl, rfl, rfl, rfl⟩
  next => cases h

theorem Db.Sound.initial : Db.initial.Sound where
  stamps := fun key f s h => by cases f <;> cases h
  inserting := fun _ _ h => by cases h
  own := fun _ _ h => by cases h
  ensured := fun _ _ h => by cases h
  merged := fun _ _ _ _ _ h => by cases h

/-- A request moves on. -/
theorem Db.Sound.setPhase (hsound : db.Sound) {req : Request} {phase : Phase}
    (hreq : ∀ before, db.txns t = some before → before.request = req)
    (hensured : phase ≠ .found → db.inserting req.key = some t ∨ db.states.get req.key ≠ none)
    (hmerged : ∀ now read after, phase = .merged now read after →
      req.mergeState now read = .ok after ∧
        ∀ f, ∀ s ∈ (read.get f).updatedAt, ∃ e ∈ db.editsOf req.key f, e.stamp = s) :
    (db.setPhase t req phase).Sound where
  stamps := hsound.stamps
  inserting := hsound.inserting
  own := fun key t' h => by
    obtain ⟨txn, htxn, hkey⟩ := hsound.own key t' h
    by_cases ht : t' = t
    · subst ht
      exact ⟨⟨req, phase⟩, Function.update_self .., hreq txn htxn ▸ hkey⟩
    · exact ⟨txn, (Function.update_of_ne ht ..).trans htxn, hkey⟩
  ensured := fun t' txn h hphase => by
    rcases update_cases h with ⟨rfl, hnew⟩ | ⟨_, hold⟩
    · obtain rfl := Option.some.inj hnew
      exact hensured hphase
    · exact hsound.ensured t' txn hold hphase
  merged := fun t' req' now read after h => by
    rcases update_cases h with ⟨rfl, hnew⟩ | ⟨_, hold⟩
    · cases hnew
      exact hmerged now read after rfl
    · exact hsound.merged t' req' now read after hold

/-- A request ends, with what it has committed. -/
theorem Db.Sound.finish (hsound : db.Sound) : (db.finish t).Sound where
  stamps := hsound.stamps
  inserting := fun key t' h => hsound.inserting key t' (RowLocks.held_of_release h)
  own := fun key t' h => by
    obtain ⟨txn, htxn, hkey⟩ := hsound.own key t' (RowLocks.held_of_release h)
    have ht : t' ≠ t := fun heq => RowLocks.release_ne (heq ▸ h)
    exact ⟨txn, (Function.update_of_ne ht ..).trans htxn, hkey⟩
  ensured := fun t' txn h hphase => by
    rcases update_cases h with ⟨_, hnew⟩ | ⟨ht, hold⟩
    · cases hnew
    · exact (hsound.ensured t' txn hold hphase).imp_left fun h => RowLocks.release_of_held h ht
  merged := fun t' req' now read after h => by
    rcases update_cases h with ⟨_, hnew⟩ | ⟨_, hold⟩
    · cases hnew
    · exact hsound.merged t' req' now read after hold

/-- A request inserts the row of its key. -/
theorem Db.Sound.insert (hsound : db.Sound) {txn : Txn} (htxn : db.txns t = some txn)
    (hfree : db.inserting.Available t txn.request.key)
    (hnone : db.states.get txn.request.key = none) :
    { db with inserting := db.inserting.lock t txn.request.key }.Sound where
  stamps := hsound.stamps
  inserting := fun key t' h => by
    rcases update_cases h with ⟨rfl, _⟩ | ⟨_, hold⟩
    · exact hnone
    · exact hsound.inserting key t' hold
  own := fun key t' h => by
    rcases update_cases h with ⟨rfl, hnew⟩ | ⟨_, hold⟩
    · obtain rfl := Option.some.inj hnew
      exact ⟨txn, htxn, rfl⟩
    · exact hsound.own key t' hold
  ensured := fun t' txn' h hphase =>
    (hsound.ensured t' txn' h hphase).imp_left fun h => RowLocks.lock_of_held h hfree
  merged := hsound.merged

/-! ### What a commit does -/

theorem filterMap_edit (req : Request) (now : Stamp) (key : StateKey) (f : StateField) :
    ((StateField.all.filterMap (req.edit now)).filter fun e => e.key = key ∧ e.field = f) =
      if key = req.key then (req.edit now f).toList else [] := by
  have hedit : ∀ g, ∀ e ∈ req.edit now g, e.key = req.key ∧ e.field = g := by
    intro g e he
    obtain ⟨ts, _, he⟩ := Option.bind_eq_some_iff.mp he
    obtain ⟨value, _, rfl⟩ := Option.map_eq_some_iff.mp he
    exact ⟨rfl, rfl⟩
  have hfilter : ∀ g, ((req.edit now g).toList.filter fun e => e.key = key ∧ e.field = f) =
      if key = req.key ∧ g = f then (req.edit now g).toList else [] := by
    intro g
    cases he : req.edit now g with
    | none => simp
    | some e =>
      obtain ⟨hkey, hfield⟩ := hedit g e he
      by_cases h : key = req.key ∧ g = f
      · simp [hkey, hfield, h]
      · have hnot : ¬ (req.key = key ∧ g = f) := fun ⟨hk, hg⟩ => h ⟨hk.symm, hg⟩
        simp only [Option.toList_some, List.filter_cons, hkey, hfield, hnot, h]
        simp
  have hall : StateField.all.filterMap (req.edit now) =
      (req.edit now .read).toList ++ (req.edit now .starred).toList ++
        (req.edit now .hidden).toList := by
    simp only [StateField.all, List.filterMap_cons, List.filterMap_nil]
    cases req.edit now .read <;> cases req.edit now .starred <;> cases req.edit now .hidden <;> rfl
  rw [hall, List.filter_append, List.filter_append, hfilter, hfilter, hfilter]
  by_cases hkey : key = req.key <;> cases f <;> simp [hkey]

section Commit

variable {req : Request} {now : Stamp} {read after : UserBulletinState}

theorem Commits.editsOf (h : Commits db db' t req now read after) (key : StateKey)
    (f : StateField) : db'.editsOf key f =
      db.editsOf key f ++ if key = req.key then (req.edit now f).toList else [] := by
  rw [Db.editsOf, h.edits, List.filter_append, filterMap_edit]
  rfl

/-- A commit writes its own row. -/
theorem Commits.get (h : Commits db db' t req now read after) (hsound : db.Sound)
    (key : StateKey) : db'.states.get key = if key = req.key then
      some (UserBulletinState.written read after (db.row key)) else db.states.get key := by
  rw [h.states]
  split
  next hown =>
    rw [Table.get_set]
    split
    next hkey =>
      rw [hkey, Db.row, hsound.inserting _ _ hown]
      rfl
    next => rfl
  next hother =>
    rw [Table.get_modify]
    split
    next hkey =>
      have hstored : db.states.get req.key ≠ none :=
        (hsound.ensured t _ h.txn (by simp)).resolve_left hother
      obtain ⟨s, hs⟩ := Option.ne_none_iff_exists'.mp hstored
      simp [hkey, Db.row, hs]
    next => simp

theorem Commits.row (h : Commits db db' t req now read after) (hsound : db.Sound)
    (key : StateKey) : db'.row key = if key = req.key then
      UserBulletinState.written read after (db.row key) else db.row key := by
  rw [Db.row, h.get hsound]
  split <;> rfl

end Commit
section Commit

variable {req : Request} {now : Stamp} {read after : UserBulletinState}

/-- A commit leaves every flag alone that its request has not set: one it sends no edit of, or
whose edit came too late. -/
theorem Commits.flag_eq (h : Commits db db' t req now read after) (hsound : db.Sound)
    (hf : key = req.key → ∀ e ∈ req.edit now f, (read.get f).Keeps e.stamp) :
    (db'.row key).get f = (db.row key).get f := by
  rw [h.row hsound]
  split
  next hkey =>
    obtain ⟨hmerge, _⟩ := hsound.merged t req now read after h.txn
    have hsame : after.get f = read.get f := by
      rw [mergeState_get hmerge, Request.flag]
      split
      next => rfl
      next e he => rw [if_pos (hf hkey e he)]
    rw [get_written, hsame, Flag.written_read]
  next => rfl

/-- A commit writes the edits its request has let in. -/
theorem Commits.flag_written (h : Commits db db' t req now read after) (hsound : db.Sound)
    {e : Edit} (he : req.edit now f = some e) (hin : ¬ (read.get f).Keeps e.stamp) :
    (db'.row req.key).get f = Flag.written (read.get f) ⟨e.value, some e.stamp, req.deviceId⟩
      ((db.row req.key).get f) := by
  obtain ⟨hmerge, _⟩ := hsound.merged t req now read after h.txn
  rw [h.row hsound, if_pos rfl, get_written, mergeState_get hmerge, Request.flag, he]
  dsimp only
  rw [if_neg hin]

/-- A commit adds to the committed edits. -/
theorem Commits.mem_editsOf (h : Commits db db' t req now read after) {e : Edit}
    (he : e ∈ db.editsOf key f) : e ∈ db'.editsOf key f := by
  rw [h.editsOf]
  exact List.mem_append_left _ he

theorem Commits.sound (h : Commits db db' t req now read after) (hsound : db.Sound) :
    db'.Sound := by
  have hfinish : (db.finish t).Sound := hsound.finish
  have htxns : db'.txns = (db.finish t).txns := h.txns
  have hinserting : db'.inserting = (db.finish t).inserting := h.inserting
  refine ⟨fun key f s hs => ?_, fun key t' hheld => ?_, ?_, fun t' txn htxn hphase => ?_, ?_⟩
  · by_cases hset : key = req.key ∧ ∃ e ∈ req.edit now f, ¬ (read.get f).Keeps e.stamp
    · -- The stamp is that of the edit the commit writes.
      obtain ⟨rfl, e, he, hin⟩ := hset
      rw [h.flag_written hsound he hin, updatedAt_written hin] at hs
      obtain rfl := Option.some.inj hs
      refine ⟨e, ?_, rfl⟩
      rw [h.editsOf, if_pos rfl, he]
      exact List.mem_append_right _ (by simp)
    · have hsame : (db'.row key).get f = (db.row key).get f :=
        h.flag_eq hsound fun hkey e he => by
          by_contra hin
          exact hset ⟨hkey, e, he, hin⟩
      obtain ⟨e, he, hstamp⟩ := hsound.stamps key f s (hsame ▸ hs)
      exact ⟨e, h.mem_editsOf he, hstamp⟩
  · have hbefore : db.inserting key = some t' := RowLocks.held_of_release (h.inserting ▸ hheld)
    rw [h.get hsound, if_neg]
    · exact hsound.inserting key t' hbefore
    · -- The key of the commit's row is given back, or was nobody's.
      rintro rfl
      have hown : t' ≠ t := fun heq => RowLocks.release_ne (heq ▸ h.inserting ▸ hheld)
      rcases hsound.ensured t _ h.txn (by simp) with hheld' | hstored
      · exact hown (Option.some.inj (hbefore.symm.trans hheld'))
      · exact hstored (hsound.inserting _ _ hbefore)
  · rw [htxns, hinserting]
    exact hfinish.own
  · rcases hfinish.ensured t' txn (htxns ▸ htxn) hphase with hheld | hstored
    · exact .inl (hinserting ▸ hheld)
    · refine .inr ?_
      rw [h.get hsound]
      split
      · exact Option.some_ne_none _
      · exact hstored
  · intro t' req' now' read' after' htxn
    obtain ⟨hmerge, hread⟩ := hfinish.merged t' req' now' read' after' (htxns ▸ htxn)
    refine ⟨hmerge, fun f s hs => ?_⟩
    obtain ⟨e, he, hstamp⟩ := hread f s hs
    exact ⟨e, h.mem_editsOf he, hstamp⟩

/-- A commit keeps the last writers exactly where it finds its flags in time. -/
theorem Commits.keeps_lastWriter_iff (h : Commits db db' t req now read after) (hsound : db.Sound)
    (hlast : db.LastWriter) : db'.LastWriter ↔ InTime db (.commit t) := by
  have hread := (hsound.merged t req now read after h.txn).2
  constructor
  · intro hlast' req' now' read' after' htxn f e he hin
    cases h.txn.symm.trans htxn
    have hgreatest := hlast' req.key f
    rw [h.flag_written hsound he hin, h.editsOf, if_pos rfl, he] at hgreatest
    exact ((hlast req.key f).written_iff hin).mp hgreatest
  · intro hintime key f
    by_cases hset : key = req.key ∧ ∃ e ∈ req.edit now f, ¬ (read.get f).Keeps e.stamp
    · obtain ⟨rfl, e, he, hin⟩ := hset
      rw [h.flag_written hsound he hin, h.editsOf, if_pos rfl, he]
      exact ((hlast req.key f).written_iff hin).mpr (hintime _ _ _ _ h.txn f e he hin)
    · have hkept : key = req.key → ∀ e ∈ req.edit now f, (read.get f).Keeps e.stamp := by
        intro hkey e he
        by_contra hin
        exact hset ⟨hkey, e, he, hin⟩
      rw [h.flag_eq hsound hkept, h.editsOf]
      split
      next hkey =>
        cases he : req.edit now f with
        | none => simpa using hlast key f
        | some e =>
          -- An edit that came too late is not later than a committed one.
          obtain ⟨stored, hstored, hle⟩ := hkept hkey e he
          obtain ⟨e', he', rfl⟩ := hread f stored hstored
          exact (hlast key f).append_of_le ⟨e', hkey ▸ he', hle⟩
      next => simpa using hlast key f

end Commit

/-! ### Every run -/

theorem Db.Sound.step (hsound : db.Sound) (h : States.step db l = some db') : db'.Sound := by
  cases l with
  | put t req isPublic =>
    simp only [States.step] at h
    split at h
    · cases h
    next hnew =>
      have hnone : db.txns t = none := by_contra hnew
      split at h <;> cases h
      · refine hsound.setPhase (fun before hbefore => ?_) (fun hphase => absurd rfl hphase) ?_
        · rw [hnone] at hbefore
          cases hbefore
        · intro _ _ _ hphase
          cases hphase
      · exact ⟨hsound.stamps, hsound.inserting, hsound.own, hsound.ensured, hsound.merged⟩
  | insert t =>
    simp only [States.step] at h
    split at h
    next req htxn =>
      have hreq : ∀ before, db.txns t = some before → before.request = req := fun before hbefore =>
        (congrArg Txn.request (Option.some.inj (htxn.symm.trans hbefore))).symm
      have hphase : ∀ now read after, Phase.ensured = .merged now read after →
          req.mergeState now read = .ok after ∧
            ∀ f, ∀ s ∈ (read.get f).updatedAt, ∃ e ∈ db.editsOf req.key f, e.stamp = s :=
        fun _ _ _ hphase => by cases hphase
      split at h
      next hfree =>
        cases h
        split
        next hnone =>
          have hlocked := hsound.insert htxn hfree hnone
          exact hlocked.setPhase hreq (fun _ => .inl RowLocks.lock_self) hphase
        next hstored => exact hsound.setPhase hreq (fun _ => .inr hstored) hphase
      next => cases h
    next => cases h
  | merge t now =>
    simp only [States.step] at h
    split at h
    next req htxn =>
      obtain ⟨read, hread, hnext⟩ := Option.map_eq_some_iff.mp h
      have hensured := hsound.ensured t _ htxn (by simp)
      split at hnext
      next after hmerge =>
        subst hnext
        refine hsound.setPhase (fun before hbefore => ?_) (fun _ => hensured) ?_
        · cases htxn.symm.trans hbefore
          rfl
        · intro now' read' after' hphase
          cases hphase
          refine ⟨hmerge, fun f s hs => ?_⟩
          unfold Db.visible at hread
          split at hread
          · -- A row the request has inserted itself carries no stamp.
            cases hread
            rw [UserBulletinState.get_fresh] at hs
            cases hs
          · refine hsound.stamps req.key f s ?_
            rw [Db.row, hread]
            exact hs
      next e _ =>
        subst hnext
        have hanswered : (db.answer t (.error e)).Sound :=
          ⟨hsound.stamps, hsound.inserting, hsound.own, hsound.ensured, hsound.merged⟩
        exact hanswered.finish
    next => cases h
  | commit t =>
    obtain ⟨req, now, read, after, hcommits⟩ := commits_of_step h
    exact hcommits.sound hsound
  | abort t =>
    simp only [States.step] at h
    split at h
    · cases h
    · cases h
      exact hsound.finish

/-- Only a commit changes a row or the committed edits. -/
theorem eq_of_step (h : step db l = some db') (hl : ∀ t, l ≠ .commit t) :
    db'.states = db.states ∧ db'.edits = db.edits := by
  cases l with
  | commit t => exact absurd rfl (hl t)
  | put t req isPublic =>
    simp only [step] at h
    split at h
    · cases h
    · split at h <;> cases h <;> exact ⟨rfl, rfl⟩
  | insert t =>
    simp only [step] at h
    split at h
    · split at h
      · cases h
        split <;> exact ⟨rfl, rfl⟩
      · cases h
    · cases h
  | merge t now =>
    simp only [step] at h
    split at h
    · obtain ⟨read, _, rfl⟩ := Option.map_eq_some_iff.mp h
      split <;> exact ⟨rfl, rfl⟩
    · cases h
  | abort t =>
    simp only [step] at h
    split at h
    · cases h
    · cases h
      exact ⟨rfl, rfl⟩

/-- A step keeps the last writers exactly where a commit finds its flags in time. -/
theorem lastWriter_step_iff (hsound : db.Sound) (hlast : db.LastWriter)
    (h : step db l = some db') : db'.LastWriter ↔ InTime db l := by
  by_cases hcommit : ∃ t, l = .commit t
  · obtain ⟨t, rfl⟩ := hcommit
    obtain ⟨req, now, read, after, hcommits⟩ := commits_of_step h
    exact hcommits.keeps_lastWriter_iff hsound hlast
  · have hl : ∀ t, l ≠ .commit t := fun t heq => hcommit ⟨t, heq⟩
    obtain ⟨hstates, hedits⟩ := eq_of_step h hl
    have hkept : db'.LastWriter := fun key f => by
      rw [Db.row, hstates, Db.editsOf, hedits]
      exact hlast key f
    refine iff_of_true hkept ?_
    cases l with
    | commit t => exact absurd rfl (hl t)
    | _ => trivial

theorem Db.LastWriter.initial : Db.initial.LastWriter := fun _ f =>
  .inl ⟨rfl, by cases f <;> rfl, by cases f <;> rfl⟩

/-- Every flag holds the value of the committed edit with the greatest stamp in every state of
exactly the runs where each commit finds the flags it writes no later than its own edits; and in
any run a commit changes no flag but those its request has let edits in of. -/
theorem lastWriter_iff {ls : List Label} (db : Db) :
    ((FreeRun step .initial ls db ∧
        ∀ ls₁, ls₁ <+: ls → ∀ u, exec step .initial ls₁ = some u → u.LastWriter) ↔
      Run step InTime .initial ls db) ∧
    (FreeRun step .initial ls db → ∀ t db', step db (.commit t) = some db' →
      ∃ req now read after, db.txns t = some ⟨req, .merged now read after⟩ ∧
        ∀ key f, (key = req.key → ∀ e ∈ req.edit now f, (read.get f).Keeps e.stamp) →
          (db'.row key).get f = (db.row key).get f) := by
  constructor
  · exact always_iff Db.Sound Db.LastWriter Db.Sound.initial Db.LastWriter.initial
      (fun _ _ _ hsound h => hsound.step h)
      fun _ _ _ hsound hlast h => lastWriter_step_iff hsound hlast h
  · intro hrun t db' h
    have hsound := hrun.invariant Db.Sound Db.Sound.initial fun _ _ _ hsound _ h => hsound.step h
    obtain ⟨req, now, read, after, hcommits⟩ := commits_of_step h
    exact ⟨req, now, read, after, hcommits.txn, fun key f hf => hcommits.flag_eq hsound hf⟩

/-! ### Two edits that overlap -/

/-- The body that sets one flag. -/
def BulletinStatePut.star (value : Bool) (ts : Stamp) : BulletinStatePut :=
  ⟨none, none, some value, some ts, none, none⟩

/-- A bulletin is read; then one device's star, made at 20 and sent late, is read beside another
device's removal of it, made at 30, and written after it. -/
def overlapping : List Label :=
  [.put 0 ⟨1, 7, some 1, ⟨some true, some 10, none, none, none, none⟩⟩ true, .insert 0, .merge 0 11,
    .commit 0,
    .put 1 ⟨1, 7, some 1, .star true 20⟩ true, .put 2 ⟨1, 7, some 2, .star false 30⟩ true,
    .insert 1, .insert 2, .merge 1 40, .merge 2 40, .commit 2, .commit 1]

/-- Of two edits that overlap, the older may stay. -/
theorem older_edit_wins :
    ∃ db, FreeRun step .initial overlapping db ∧ (∀ t ∈ [0, 1, 2], db.txns t = none) ∧
      ¬ db.LastWriter := by
  obtain ⟨db, hdb⟩ : ∃ db, exec step .initial overlapping = some db := ⟨_, rfl⟩
  refine ⟨db, run_of_exec hdb, ?_, fun hlast => ?_⟩
  · obtain rfl := Option.some.inj hdb.symm
    decide
  · have hstored : (db.row (1, 7)).starred = ⟨true, some 20, some 1⟩ := by
      obtain rfl := Option.some.inj hdb.symm
      decide
    have hedits : db.editsOf (1, 7) .starred =
        [⟨(1, 7), .starred, false, 30⟩, ⟨(1, 7), .starred, true, 20⟩] := by
      obtain rfl := Option.some.inj hdb.symm
      decide
    have hgreatest := hlast (1, 7) .starred
    rw [hedits, UserBulletinState.get, hstored] at hgreatest
    rcases hgreatest with ⟨hnil, _⟩ | ⟨e, he, hmax, _, hstamp⟩
    · cases hnil
    · -- The stamp stored is 20, and 30 is committed too.
      have h30 := hmax _ List.mem_cons_self
      rw [← Option.some.inj hstamp] at h30
      exact absurd h30 (by decide)

end TigerDuck.Bulletins.States
