import Mathlib.Data.List.MinMax
import Mathlib.Data.List.Sort
import TigerDuck.Relational.Table
import TigerDuck.Sync.Merge

/-!
# TLS pin sets and their documents

`server/tls_pins`: the sets, the documents signed from them, the watcher and the operator's
actions. Every transaction that changes a pin, an expiry or a document takes the advisory lock of
the pin state first and holds it until it commits, so the transactions follow one another. The
watcher probes before that, and what its probes found is part of its label; so is the signing key
a process has at the time, or that it has none.

A payload is kept as what it says of the sets, which is all that is read back of it. Left out are
the bytes and signatures, `prompt_roots`, the metrics, the audit rows and who changed a set last.
-/

namespace TigerDuck.TlsPins

open Relational

def SECOND : Time := 1000000

def DAY : Time := 24 * 60 * 60 * SECOND

/-- `DOCUMENT_VALIDITY`. -/
def DOCUMENT_VALIDITY : Time := 30 * DAY

/-- `RESIGN_BEFORE`. -/
def RESIGN_BEFORE : Time := 7 * DAY

/-- `MAX_EXPIRY_AHEAD`. -/
def MAX_EXPIRY_AHEAD : Time := 731 * DAY

/-- `timestamp`: whole seconds. -/
def timestamp (t : Time) : Nat := t / SECOND

inductive PinSource
  | migration
  | portal
  | watcher
  deriving DecidableEq, Repr

/-- A pin of a set. -/
structure Pin where
  spki : String
  label : String
  firstSeenAt : Option Nat
  lastSeenAt : Option Nat
  source : PinSource
  pending : Bool
  deriving DecidableEq, Repr

structure Domain where
  name : String
  includeSubdomains : Bool
  deriving DecidableEq, Repr

/-- A certificate as `_describe` records it. -/
structure Certificate where
  subject : String
  issuer : String
  notBefore : Nat
  notAfter : Nat
  spki : String
  deriving DecidableEq, Repr

inductive ProbeStatus
  | trusted
  | untrusted
  | error
  deriving DecidableEq, Repr

/-- What a probe found; a trusted chain is the validated one, leaf first. -/
structure Probe where
  status : ProbeStatus
  chain : List Certificate
  detail : Option String
  viaAia : Bool
  deriving DecidableEq, Repr

/-- A host's entry in `watch_results`. -/
structure WatchResult where
  checkedAt : Nat
  status : ProbeStatus
  detail : Option String
  viaAia : Bool
  chain : List Certificate
  added : List String
  lastSuccessAt : Nat
  deriving DecidableEq, Repr

/-- A row of `tls_pin_sets`. -/
structure TlsPinSet where
  domains : List Domain
  pins : List Pin
  expiresAt : Time
  monitoredHosts : List String
  autoPublish : Bool
  watchResults : Table String WatchResult

/-- A set as a document lists it. -/
structure SetEntry where
  id : String
  domains : List Domain
  pins : List String
  expiresAt : Nat
  deriving DecidableEq, Repr

/-- A row of `tls_pin_documents`. -/
structure TlsPinDocument where
  serial : Nat
  keyId : String
  pinSets : List SetEntry
  issuedAt : Time
  expiresAt : Time
  reason : String
  deriving DecidableEq, Repr

/-- A signed document, with the sets as they were stored then, which nothing reads. -/
structure Signing where
  document : TlsPinDocument
  sets : Table String TlsPinSet

/-- The sets, and the documents in the order of their commits. -/
structure Db where
  sets : Table String TlsPinSet
  signings : List Signing

/-- `published_pins`. -/
def TlsPinSet.publishedPins (s : TlsPinSet) : List String :=
  (s.pins.filter fun pin => !pin.pending).map (·.spki)

/-- `set_entry`. -/
def setEntry (id : String) (s : TlsPinSet) : SetEntry :=
  ⟨id, s.domains, s.publishedPins, timestamp s.expiresAt⟩

namespace Db

/-- `current_document`: that of the highest serial. -/
def currentDocument (db : Db) : Option TlsPinDocument :=
  (db.signings.map (·.document)).argmax (·.serial)

/-- Every set as stored, in the order of the ids. -/
def storedEntries (db : Db) : List SetEntry :=
  (db.sets.rows.insertionSort fun a b => a.1 ≤ b.1).map fun r => setEntry r.1 r.2

/-- `publish`: the sets given, or those stored. -/
def publish (db : Db) (keyId reason : String) (pinSets : Option (List SetEntry)) (now : Time) :
    Db :=
  let issued := timestamp now * SECOND
  let serial := max (db.currentDocument.elim 0 (·.serial + 1)) (timestamp issued)
  let document : TlsPinDocument :=
    { serial
      keyId
      pinSets := pinSets.getD db.storedEntries
      issuedAt := issued
      expiresAt := issued + DOCUMENT_VALIDITY
      reason }
  { db with signings := db.signings ++ [⟨document, db.sets⟩] }

/-- `ensure_current_document`. -/
def ensureCurrentDocument (db : Db) (signer : Option String) (now : Time) : Db :=
  match signer, db.currentDocument with
  | none, _ => db
  | some keyId, none => db.publish keyId "initial" none now
  | some keyId, some document =>
    if document.expiresAt ≤ now + RESIGN_BEFORE then
      db.publish keyId "resign" (some document.pinSets) now
    else db

/-! ### The watcher -/

/-- The pins of a chain that has none of the set's: each of its keys but the leaf's place. -/
def addedPins (s : TlsPinSet) (chain : List Certificate) (seenAt : Nat) : List Pin :=
  let known := s.pins.map (·.spki)
  if chain.any fun c => known.contains c.spki then []
  else
    chain.tail.foldl (fun added c =>
      if known.contains c.spki || (added.map (·.spki)).contains c.spki then added
      else added ++ [⟨c.spki, c.subject, some seenAt, some seenAt, .watcher, !s.autoPublish⟩]) []

/-- A pin that a chain shows. -/
def seenPin (seen : List String) (seenAt : Nat) (pin : Pin) : Pin :=
  if seen.contains pin.spki then
    { pin with firstSeenAt := pin.firstSeenAt.or (some seenAt), lastSeenAt := some seenAt }
  else pin

/-- `_apply`. -/
def apply (s : TlsPinSet) (target : String) (result : Probe) (now : Time) : TlsPinSet :=
  let seenAt := timestamp now
  let added := if result.status = .trusted then addedPins s result.chain seenAt else []
  let record : WatchResult :=
    { checkedAt := seenAt
      status := result.status
      detail := result.detail
      viaAia := result.viaAia
      chain := result.chain
      added := added.map (·.spki)
      lastSuccessAt :=
        if result.status = .error then
          ((s.watchResults.get target).map (·.lastSuccessAt)).getD seenAt
        else seenAt }
  let pins :=
    if result.status = .trusted then
      s.pins.map (seenPin (result.chain.map (·.spki)) seenAt) ++ added
    else s.pins
  { s with pins, watchResults := s.watchResults.set target record }

/-- One host's result: an operator may have removed the host while it was probed. -/
def applyResult (now : Time) (sets : Table String TlsPinSet) (r : String × String × Probe) :
    Table String TlsPinSet :=
  sets.modify fun id s =>
    if id = r.1 ∧ s.monitoredHosts.contains r.2.1 = true then apply s r.2.1 r.2.2 now else s

/-- `run_pin_watch`, from the lock on. -/
def runPinWatch (db : Db) (results : List (String × String × Probe)) (signer : Option String)
    (now : Time) : Db :=
  let db := { db with sets := results.foldl (applyResult now) db.sets }
  match signer, db.currentDocument with
  | some keyId, some document =>
    -- Compared with what is served, so a change kept without a key goes out once it is back.
    let stale := db.sets.rows.any fun r =>
      r.2.autoPublish && decide (document.pinSets.find? (·.id = r.1) ≠ some (setEntry r.1 r.2))
    if stale then db.publish keyId "watcher" none now else db
  | _, _ => db

/-! ### The operator's actions -/

/-- `_finish`: publish when asked and a key is there, and answer the serial. -/
def finish (db : Db) (signer : Option String) (action : String) (publishNow : Bool)
    (pinSets : Option (List SetEntry)) (now : Time) : Db × Option Nat :=
  match signer, publishNow with
  | some keyId, true =>
    let db := db.publish keyId ("portal." ++ action) pinSets now
    (db, db.currentDocument.map (·.serial))
  | _, _ => (db, none)

/-- Rewrite one set. -/
def updateSet (db : Db) (id : String) (f : TlsPinSet → TlsPinSet) : Db :=
  { db with sets := db.sets.modify fun k s => if k = id then f s else s }

/-- `_locked_set`. -/
def lockedSet (db : Db) (id : String) : Except HttpError TlsPinSet :=
  (db.sets.get id).elim (.error ⟨404, "pin_set_not_found"⟩) .ok

def addPin (db : Db) (id spki label : String) (signer : Option String) (now : Time) :
    Except HttpError (Db × Option Nat) := do
  let s ← db.lockedSet id
  if s.pins.any (·.spki = spki) then throw ⟨409, "pin_exists"⟩
  let pin : Pin := ⟨spki, label, none, none, .portal, false⟩
  return (db.updateSet id fun s => { s with pins := s.pins ++ [pin] }).finish signer "add_pin" true
    none now

def removePin (db : Db) (id spki : String) (signer : Option String) (now : Time) :
    Except HttpError (Db × Option Nat) := do
  let s ← db.lockedSet id
  let remaining := s.pins.filter (·.spki ≠ spki)
  if remaining.length = s.pins.length then throw ⟨404, "pin_not_found"⟩
  -- A set with no published pins would fail every chain on its hosts.
  if !remaining.any fun pin => !pin.pending then throw ⟨409, "last_pin"⟩
  return (db.updateSet id fun s => { s with pins := s.pins.filter (·.spki ≠ spki) }).finish signer
    "remove_pin" true none now

/-- `set_monitored_hosts`; `refusal` is what the checks of the hosts say. -/
def setMonitoredHosts (db : Db) (id : String) (hosts : List String) (refusal : Option String)
    (signer : Option String) (now : Time) : Except HttpError (Db × Option Nat) := do
  let _ ← db.lockedSet id
  if let some detail := refusal then throw ⟨422, detail⟩
  return (db.updateSet id fun s => { s with
    monitoredHosts := hosts
    watchResults := s.watchResults.deleteWhere fun host _ => !hosts.contains host }).finish signer
      "set_hosts" false none now

def extendExpiry (db : Db) (id : String) (expiresAt : Time) (signer : Option String) (now : Time) :
    Except HttpError (Db × Option Nat) := do
  let s ← db.lockedSet id
  if expiresAt ≤ s.expiresAt then throw ⟨409, "expiry_not_later"⟩
  if now + MAX_EXPIRY_AHEAD < expiresAt then throw ⟨409, "expiry_too_far"⟩
  return (db.updateSet id fun s => { s with expiresAt }).finish signer "extend_expiry" true none now

def setAutoPublish (db : Db) (id : String) (enabled : Bool) (signer : Option String) (now : Time) :
    Except HttpError (Db × Option Nat) := do
  let _ ← db.lockedSet id
  return (db.updateSet id fun s => { s with autoPublish := enabled }).finish signer
    "set_auto_publish" false none now

/-- `_require_signer`. -/
def requireSigner (signer : Option String) : Except HttpError Unit :=
  if signer.isNone then .error ⟨503, "tls_pin_signing_disabled"⟩ else .ok ()

/-- The pending pins that the operator was shown are approved. -/
def approvePin (shown : List String) (pin : Pin) : Pin :=
  if shown.contains pin.spki then { pin with pending := false } else pin

/-- `publish_document`. -/
def publishDocument (db : Db) (approve : List (String × List String)) (signer : Option String)
    (now : Time) : Except HttpError (Db × Option Nat) := do
  requireSigner signer
  let sets := db.sets.modify fun id s =>
    let shown := (approve.lookup id).getD []
    if s.pins.any fun pin => pin.pending && shown.contains pin.spki then
      { s with pins := s.pins.map (approvePin shown) }
    else s
  return { db with sets }.finish signer "publish" true none now

/-- `resign_document`. -/
def resignDocument (db : Db) (signer : Option String) (now : Time) :
    Except HttpError (Db × Option Nat) := do
  requireSigner signer
  match db.currentDocument with
  | none => throw ⟨404, "tls_pin_document_not_found"⟩
  | some document => return db.finish signer "resign" true (some document.pinSets) now

end Db

/-- A transaction: the watcher's, the scheduler's, or that of an operator's action. -/
inductive Label
  | watch (results : List (String × String × Probe)) (signer : Option String) (now : Time)
  | ensureCurrent (signer : Option String) (now : Time)
  | addPin (id spki label : String) (signer : Option String) (now : Time)
  | removePin (id spki : String) (signer : Option String) (now : Time)
  | setMonitoredHosts (id : String) (hosts : List String) (refusal : Option String)
      (signer : Option String) (now : Time)
  | extendExpiry (id : String) (expiresAt : Time) (signer : Option String) (now : Time)
  | setAutoPublish (id : String) (enabled : Bool) (signer : Option String) (now : Time)
  | publish (approve : List (String × List String)) (signer : Option String) (now : Time)
  | resign (signer : Option String) (now : Time)

/-- What an action comes to; one that is refused changes nothing. -/
def Db.after (db : Db) : Except HttpError (Db × Option Nat) → Db
  | .ok (db', _) => db'
  | .error _ => db

/-- One transaction. -/
def step (db : Db) : Label → Option Db
  | .watch results signer now => some (db.runPinWatch results signer now)
  | .ensureCurrent signer now => some (db.ensureCurrentDocument signer now)
  | .addPin id spki label signer now => some (db.after (db.addPin id spki label signer now))
  | .removePin id spki signer now => some (db.after (db.removePin id spki signer now))
  | .setMonitoredHosts id hosts refusal signer now =>
    some (db.after (db.setMonitoredHosts id hosts refusal signer now))
  | .extendExpiry id expiresAt signer now =>
    some (db.after (db.extendExpiry id expiresAt signer now))
  | .setAutoPublish id enabled signer now =>
    some (db.after (db.setAutoPublish id enabled signer now))
  | .publish approve signer now => some (db.after (db.publishDocument approve signer now))
  | .resign signer now => some (db.after (db.resignDocument signer now))

end TigerDuck.TlsPins
