import Mathlib.Data.Prod.Lex
import TigerDuck.Links.Fetch
import TigerDuck.Relational.Table
import TigerDuck.Transition.Run

/-!
# The links and their checks

The operator's edits of the links (`server/routes/links.py`) and the checks of their targets
(`check_link` of `server/links/checker.py`), of the scheduler and of operators, any number of them at
once. No transaction is open while a check fetches, so an edit, or another check's record, may come
between its two reads of the row; an edit and a record each lock the row and are one step.

Times are those of the machine's clock, in microseconds. Left out are the links a tick finds due
(a check may begin at any time), the exported metrics, and the answers to the operator.

- `Db.updateLink`: an edit.
- `Db.finishCheck`: what a check records.
-/

namespace TigerDuck.Links

open Relational Transition

abbrev LinkName := String

abbrev Time := Int

abbrev CheckId := Nat

abbrev Actor := String

/-- `ALERT_OK` and `ALERT_FAILING`. -/
inductive AlertState
  | ok
  | failing
  deriving DecidableEq, Repr

/-- A row of `links`. -/
structure Link where
  targetUrl : String
  enabled : Bool
  expectations : List Rule
  checkIntervalMinutes : Nat
  lastCheckAt : Option Time
  lastCheckOk : Option Bool
  lastCheckDetail : Option String
  alertState : AlertState
  alertDetail : Option String
  updatedAt : Time
  updatedBy : Actor
  deriving DecidableEq, Repr

structure LinkCreate where
  name : LinkName
  targetUrl : String
  enabled : Bool
  expectations : List Rule
  checkIntervalMinutes : Nat
  deriving DecidableEq, Repr

structure LinkUpdate where
  targetUrl : Option String
  enabled : Option Bool
  expectations : Option (List Rule)
  checkIntervalMinutes : Option Nat
  deriving DecidableEq, Repr

/-- The fields of an edit that differ from the row's. -/
abbrev Changes := LinkUpdate

/-- A row of `admin_audit_log`. -/
inductive AuditRow
  | create (actor : Actor) (name : LinkName) (targetUrl : String)
  | edit (actor : Actor) (action : String) (name : LinkName) (changes : Changes)
  | test (actor : Actor) (name : LinkName) (ok : Bool)
  deriving DecidableEq, Repr

/-- A check between its two reads of the row. -/
structure Check where
  name : LinkName
  actor : Option Actor
  targetUrl : String
  expectations : List Rule
  updatedAt : Time
  started : Option Time
  /-- No variable: how long the log was at the first read. -/
  readAt : Nat
  deriving DecidableEq, Repr

/-- A check that has found its row unchanged. -/
structure Checked where
  readAt : Nat
  started : Time
  targetUrl : String
  expectations : List Rule
  result : CheckResult
  deriving DecidableEq, Repr

/-- What has happened to a link. -/
inductive Event
  /-- An edit; whether it makes the link due at once, and whether it turns it off or on. -/
  | edited (name : LinkName) (resets toggles : Bool)
  | checked (name : LinkName) (check : Checked)
  /-- A check that has found its row changed. -/
  | discarded (name : LinkName) (readAt : Nat)
  deriving DecidableEq, Repr

structure Db where
  links : Table LinkName Link
  checks : CheckId → Option Check
  audit : List AuditRow
  /-- No table: what has happened. -/
  log : List Event

def Db.initial : Db := ⟨Table.empty, fun _ => none, [], []⟩

/-! ### Edits -/

/-- The bounds of the fields, which the request models check. -/
def targetFits (url : String) : Bool := 1 ≤ url.length && url.length ≤ 2048

def rulesFit (rules : List Rule) : Bool := rules.length ≤ 20 && rules.all Rule.isValid

def intervalFits (minutes : Nat) : Bool := 5 ≤ minutes && minutes ≤ 1440

def LinkCreate.fits (payload : LinkCreate) : Bool :=
  isValidName payload.name && targetFits payload.targetUrl && rulesFit payload.expectations &&
    intervalFits payload.checkIntervalMinutes

def LinkUpdate.fits (payload : LinkUpdate) : Bool :=
  payload.targetUrl.all targetFits && payload.expectations.all rulesFit &&
    payload.checkIntervalMinutes.all intervalFits

/-- A row as it is inserted. -/
def LinkCreate.row (payload : LinkCreate) (actor : Actor) (now : Time) : Link where
  targetUrl := payload.targetUrl
  enabled := payload.enabled
  expectations := payload.expectations
  checkIntervalMinutes := payload.checkIntervalMinutes
  lastCheckAt := none
  lastCheckOk := none
  lastCheckDetail := none
  alertState := .ok
  alertDetail := none
  updatedAt := now
  updatedBy := actor

structure HttpError where
  status : Nat
  detail : String
  deriving DecidableEq, Repr

/-- `_checked_target`. -/
def checkedTarget (lib : Library) (allowedHosts : List String) (url : String) :
    Except HttpError String :=
  match validateTarget lib url allowedHosts with
  | .ok url => .ok url
  | .error text => .error ⟨422, "invalid target: " ++ text⟩

/-- `create_link`. -/
def Db.createLink (lib : Library) (allowedHosts : List String) (db : Db) (payload : LinkCreate)
    (actor : Actor) (now : Time) : Except HttpError Db :=
  match checkedTarget lib allowedHosts payload.targetUrl with
  | .error e => .error e
  | .ok target =>
    if (db.links.get payload.name).isSome then .error ⟨409, "a link with this name exists"⟩
    else .ok { db with
      links := db.links.set payload.name (payload.row actor now)
      audit := db.audit ++ [.create actor payload.name target] }

/-- What of a request differs from the row. -/
def LinkUpdate.changes (payload : LinkUpdate) (link : Link) : Changes where
  targetUrl := payload.targetUrl.filter (· ≠ link.targetUrl)
  enabled := payload.enabled.filter (· ≠ link.enabled)
  expectations := payload.expectations.filter (· ≠ link.expectations)
  checkIntervalMinutes := payload.checkIntervalMinutes.filter (· ≠ link.checkIntervalMinutes)

def Changes.isEmpty (changes : Changes) : Bool :=
  decide (changes = ⟨none, none, none, none⟩)

/-- Whether the next tick checks what was saved. -/
def Changes.resets (changes : Changes) : Bool :=
  changes.targetUrl.isSome || changes.expectations.isSome || decide (changes.enabled = some true)

/-- `_update_action`. -/
def Changes.action (changes : Changes) : String :=
  if changes = ⟨none, some false, none, none⟩ then "link.disable"
  else if changes = ⟨none, some true, none, none⟩ then "link.enable"
  else "link.update"

/-- The row with the changes. -/
def Link.edit (link : Link) (changes : Changes) (actor : Actor) (now : Time) : Link :=
  { link with
    targetUrl := changes.targetUrl.getD link.targetUrl
    enabled := changes.enabled.getD link.enabled
    expectations := changes.expectations.getD link.expectations
    checkIntervalMinutes := changes.checkIntervalMinutes.getD link.checkIntervalMinutes
    updatedAt := now
    updatedBy := actor
    -- A link turned off or on starts with no alert.
    alertState := if changes.enabled.isSome then .ok else link.alertState
    lastCheckAt := if changes.resets then none else link.lastCheckAt }

/-- `update_link`. -/
def Db.updateLink (lib : Library) (allowedHosts : List String) (db : Db) (name : LinkName)
    (payload : LinkUpdate) (actor : Actor) (now : Time) : Except HttpError Db :=
  match db.links.get name with
  | none => .error ⟨404, "link not found"⟩
  | some link =>
    match payload.targetUrl.map (checkedTarget lib allowedHosts) with
    | some (.error e) => .error e
    | _ =>
      let changes := payload.changes link
      if changes.isEmpty then .ok db
      else .ok { db with
        links := db.links.set name (link.edit changes actor now)
        audit := db.audit ++ [.edit actor changes.action name changes]
        log := db.log ++ [.edited name changes.resets changes.enabled.isSome] }

/-! ### Checks -/

/-- `next_alert_state`. -/
def nextAlertState (current : AlertState) (ok : Bool) : AlertState × Option String :=
  if ok = false ∧ current ≠ .failing then (.failing, some "failing")
  else if ok = true ∧ current = .failing then (.ok, some "recovered")
  else (current, none)

/-- The row with a check's result, unless one that started later is on it. -/
def Link.record (link : Link) (started : Time) (result : CheckResult) : Link :=
  if link.lastCheckAt.any (started < ·) then link
  else
    let next := nextAlertState link.alertState result.ok
    { link with
      lastCheckAt := some started
      lastCheckOk := some result.ok
      lastCheckDetail := some result.detail
      alertState := next.1
      alertDetail := if next.2 = some "failing" then some result.detail else link.alertDetail }

def Db.setCheck (db : Db) (c : CheckId) (check : Check) : Db :=
  { db with checks := Function.update db.checks c (some check) }

def Db.dropCheck (db : Db) (c : CheckId) : Db :=
  { db with checks := Function.update db.checks c none }

/-- The first read of `check_link`. -/
def Db.beginCheck (db : Db) (c : CheckId) (name : LinkName) (actor : Option Actor) : Option Db :=
  if (db.checks c).isSome then none
  else (db.links.get name).map fun link => db.setCheck c
    { name, actor
      targetUrl := link.targetUrl
      expectations := link.expectations
      updatedAt := link.updatedAt
      started := none
      readAt := db.log.length }

/-- The second transaction of `check_link`. -/
def Db.finishCheck (db : Db) (c : CheckId) (check : Check) (started : Time) (result : CheckResult) :
    Db :=
  let db := db.dropCheck c
  match db.links.get check.name with
  | none => db
  | some link =>
    if link.targetUrl = check.targetUrl ∧ link.expectations = check.expectations ∧
        link.updatedAt = check.updatedAt then
      { db with
        links := db.links.set check.name (link.record started result)
        audit := db.audit ++ (check.actor.map fun actor => .test actor check.name result.ok).toList
        log := db.log ++ [.checked check.name
          ⟨check.readAt, started, check.targetUrl, check.expectations, result⟩] }
    else { db with log := db.log ++ [.discarded check.name check.readAt] }

inductive Label
  | create (payload : LinkCreate) (actor : Actor) (now : Time)
  | update (name : LinkName) (payload : LinkUpdate) (actor : Actor) (now : Time)
  | begin (c : CheckId) (name : LinkName) (actor : Option Actor)
  /-- `started` is read. -/
  | start (c : CheckId) (now : Time)
  | finish (c : CheckId) (first second : Attempt)
  /-- A check that ends where it is: the process stops, or a statement fails. -/
  | drop (c : CheckId)

/-- One step. A request that is refused leaves everything as it is. -/
def step (lib : Library) (allowedHosts : List String) (db : Db) : Label → Option Db
  | .create payload actor now =>
    if payload.fits then some ((db.createLink lib allowedHosts payload actor now).toOption.getD db)
    else some db
  | .update name payload actor now =>
    if payload.fits then some ((db.updateLink lib allowedHosts name payload actor now).toOption.getD db)
    else some db
  | .begin c name actor => db.beginCheck c name actor
  | .start c now =>
    (db.checks c).bind fun check =>
      if check.started.isSome then none else some (db.setCheck c { check with started := some now })
  | .finish c first second =>
    (db.checks c).bind fun check =>
      check.started.map fun started => db.finishCheck c check started
        (runCheck lib allowedHosts check.targetUrl check.expectations first second).1
  | .drop c => some (db.dropCheck c)

/-! ### What a link's columns say of what has happened -/

def Event.isEdit (name : LinkName) : Event → Bool
  | .edited name' _ _ => decide (name' = name)
  | _ => false

/-- An edit that has made the link due at once. -/
def Event.isReset (name : LinkName) : Event → Bool
  | .edited name' resets _ => decide (name' = name) && resets
  | _ => false

/-- An edit that has turned the link off or on. -/
def Event.isToggle (name : LinkName) : Event → Bool
  | .edited name' _ toggles => decide (name' = name) && toggles
  | _ => false

/-- The edits that have made the link due at once. -/
def resets (name : LinkName) (log : List Event) : Nat := log.countP (Event.isReset name)

/-- How often the link has been turned off or on. -/
def toggles (name : LinkName) (log : List Event) : Nat := log.countP (Event.isToggle name)

/-- What a check says, and how often the link had been turned off or on before it. -/
structure Verdict where
  check : Checked
  toggles : Nat
  deriving DecidableEq, Repr

/-- The checks of a link that found its row unchanged, each under the number of the edits that made
the link due at once before it, and then its start. -/
def verdicts (name : LinkName) : Nat → Nat → List Event → List ((Nat ×ₗ Time) × Verdict)
  | _, _, [] => []
  | r, t, e :: rest =>
    let later := verdicts name (r + (e.isReset name).toNat) (t + (e.isToggle name).toNat) rest
    match e with
    | .checked name' check =>
      if name' = name then (toLex (r, check.started), ⟨check, t⟩) :: later else later
    | _ => later

end TigerDuck.Links
