import TigerDuck.Relational.Table
import TigerDuck.Sync.Merge
import TigerDuck.Transition.RowLock
import TigerDuck.Transition.Run

/-!
# Subscription rules

The writes of `server/routes/bulletins_v3.py` to `user_bulletin_subscriptions`: the PUT of a list
of rules in `/v3` and in `/v4`, the POST, the PATCH and the DELETE of one rule. PATCH is one
`UPDATE` that reads and writes its row under the row's lock, and so one step; the two PUTs and
DELETE read their rows, and write what they have made of them when they commit. Only `/v4`'s PUT
locks the user's sync state.

A commit that would break the unique index on a device's live client ids is not enabled: its
transaction is rolled back. `created_by_device_id`, `updated_by_device_id`, the times of a row but
for `deleted_at` and the answers are left out, as are the length limits of a body.

## Main results

- `step_cases`: what a step does to the stored rules.
- `get_writeRows`, `get_insertRules`: a commit writes the rows it has read, column by column, and
  inserts its new ones after the stored ones.
-/

namespace TigerDuck.Bulletins.Subscriptions

open Relational Transition

/-- A `user_bulletin_subscriptions.id`. -/
abbrev RowId := Nat

/-- A client's id of a rule. -/
abbrev ClientId := Nat

/-- A `users.id`. -/
abbrev UserId := Nat

/-- A running transaction. -/
abbrev TxnId := Nat

/-- Whose rules they are: the user and the device of a session. -/
abbrev Owner := UserId × DeviceId

/-- `SubscriptionMode`. -/
inductive SubscriptionMode
  | and
  | or
  deriving DecidableEq, Repr

/-- `SubscriptionCreate`: the values of a rule. -/
structure RuleValues where
  name : Option String
  orgs : List String
  tags : List String
  mode : SubscriptionMode
  enabled : Bool
  deriving DecidableEq, Repr

/-- `SubscriptionRuleV4`: a rule with its client's id. -/
structure Rule where
  clientId : ClientId
  values : RuleValues
  deriving DecidableEq, Repr

/-- `SubscriptionPatch`, without its `base_revision`. -/
structure SubscriptionPatch where
  name : Option String
  orgs : Option (List String)
  tags : Option (List String)
  mode : Option SubscriptionMode
  enabled : Option Bool
  deriving DecidableEq, Repr

/-- The values a PATCH leaves. -/
def SubscriptionPatch.apply (payload : SubscriptionPatch) (values : RuleValues) : RuleValues where
  name := payload.name.or values.name
  orgs := payload.orgs.getD values.orgs
  tags := payload.tags.getD values.tags
  mode := payload.mode.getD values.mode
  enabled := payload.enabled.getD values.enabled

/-- A row of `user_bulletin_subscriptions`. -/
structure Subscription where
  owner : Owner
  clientId : ClientId
  values : RuleValues
  revision : Nat
  deletedAt : Option Time
  deriving DecidableEq, Repr

/-- A row as it is inserted. -/
def Subscription.fresh (owner : Owner) (rule : Rule) : Subscription :=
  ⟨owner, rule.clientId, rule.values, 1, none⟩

/-- The rule a row holds. -/
def Subscription.rule (s : Subscription) : Rule := ⟨s.clientId, s.values⟩

/-- Whether a row is one of the owner's rules. -/
def Subscription.liveFor (s : Subscription) (owner : Owner) : Bool :=
  s.owner = owner ∧ s.deletedAt = none

/-- A revision of a row, with the values it denotes. -/
structure Version where
  revision : Nat
  values : RuleValues
  deriving DecidableEq, Repr

/-- The version a row is at. -/
def Subscription.version (s : Subscription) : Version := ⟨s.revision, s.values⟩

/-! ### What a request does with the rows it has read -/

/-- A request that reads its rows before it writes them. -/
inductive Operation
  /-- `replace_subscriptions`. -/
  | replace (rules : List RuleValues)
  /-- `replace_subscriptions_v4`. -/
  | replaceV4 (rules : List Rule)
  /-- `delete_subscription`. -/
  | delete (id : RowId) (baseRevision : Option Int)
  deriving DecidableEq, Repr

/-- What a request does with a row it has read. -/
inductive Action
  | leave
  | update (values : RuleValues)
  | retire
  deriving DecidableEq, Repr

/-- `/v4`'s PUT keeps a row by its client's id, which its body names at most once. -/
def Operation.action (op : Operation) (row : Subscription) : Action :=
  match op with
  | .replace _ => .retire
  | .delete .. => .retire
  | .replaceV4 rules =>
    match rules.find? (·.clientId = row.clientId) with
    | none => .retire
    | some rule => if rule.values = row.values then .leave else .update rule.values

/-- The row as the session holds it after that. -/
def Action.apply (a : Action) (now : Time) (row : Subscription) : Subscription :=
  match a with
  | .leave => row
  | .update values => { row with values := values, revision := row.revision + 1 }
  | .retire => { row with deletedAt := some now }

/-- The rules a request inserts: `clientIds` are the ids the database draws for those that come
without one. -/
def Operation.inserted (op : Operation) (read : List (RowId × Subscription))
    (clientIds : List ClientId) : List Rule :=
  match op with
  | .replace rules => List.zipWith Rule.mk clientIds rules
  | .replaceV4 rules => rules.filter fun rule => read.all fun row => row.2.clientId ≠ rule.clientId
  | .delete .. => []

/-- The list a PUT asks for, with the ids drawn for it. -/
def Operation.list (op : Operation) (clientIds : List ClientId) : Option (List Rule) :=
  match op with
  | .replace rules => some (List.zipWith Rule.mk clientIds rules)
  | .replaceV4 rules => some rules
  | .delete .. => none

/-- Whether the request answers for the revision of what it overwrites: a DELETE with
`base_revision`, and `/v4`'s PUT. -/
def Operation.Compares : Operation → Prop
  | .replace _ => False
  | .replaceV4 _ => True
  | .delete _ baseRevision => baseRevision.isSome

instance : (op : Operation) → Decidable op.Compares
  | .replace _ => inferInstanceAs (Decidable False)
  | .replaceV4 _ => inferInstanceAs (Decidable True)
  | .delete _ baseRevision => inferInstanceAs (Decidable (baseRevision.isSome = true))

/-- The values once the columns that differ from what was read are written. -/
def RuleValues.written (read after current : RuleValues) : RuleValues where
  name := writeColumn read.name after.name current.name
  orgs := writeColumn read.orgs after.orgs current.orgs
  tags := writeColumn read.tags after.tags current.tags
  mode := writeColumn read.mode after.mode current.mode
  enabled := writeColumn read.enabled after.enabled current.enabled

/-- The row once the columns that differ from what was read are written. -/
def Subscription.written (read after current : Subscription) : Subscription :=
  { current with
    values := RuleValues.written read.values after.values current.values
    revision := writeColumn read.revision after.revision current.revision
    deletedAt := writeColumn read.deletedAt after.deletedAt current.deletedAt }

/-! ### The database -/

/-- A request under way, with the rows it has read. -/
structure Txn where
  owner : Owner
  op : Operation
  read : Option (List (RowId × Subscription))
  deriving DecidableEq, Repr

/-- An operation that answers for a revision has overwritten a row: the revision it had seen, and
the values it found when it wrote. -/
structure Overwrite where
  id : RowId
  seen : Int
  found : RuleValues
  deriving DecidableEq, Repr

/-- Stored rules, under ids that were drawn, with one live row of each client id of a device. -/
structure Stored where
  rows : Table RowId Subscription
  nextId : Nat
  below : ∀ (id : Nat) s, rows.get id = some s → id < nextId
  unique : ∀ id s, rows.get id = some s → s.deletedAt = none → ∀ id' s', rows.get id' = some s' →
    s'.deletedAt = none → s'.owner.2 = s.owner.2 → s'.clientId = s.clientId → id' = id

/-- The database, with the versions each row has been at, what was overwritten, and the list each
owner has last put. -/
structure Db where
  rows : Table RowId Subscription
  nextId : Nat
  syncLock : RowLocks UserId TxnId
  txns : TxnId → Option Txn
  history : RowId → List Version
  overwrites : List Overwrite
  lists : Owner → Option (List Rule)

/-- The new version of a row, if it has one. -/
def newVersion (before after : Option Subscription) : List Version :=
  match after with
  | none => []
  | some s => if before.map (·.version) = some s.version then [] else [s.version]

/-- Insert the rules one after another. -/
def insertRules (owner : Owner) (rows : Table RowId Subscription) (nextId : Nat) :
    List Rule → Table RowId Subscription
  | [] => rows
  | rule :: rules =>
    insertRules owner (rows.set nextId (.fresh owner rule)) (nextId + 1) rules

/-- Write the rows a request has read. -/
def Operation.writeRows (op : Operation) (now : Time) (read : List (RowId × Subscription))
    (rows : Table RowId Subscription) : Table RowId Subscription :=
  rows.modify fun id s =>
    match read.lookup id with
    | none => s
    | some r => Subscription.written r ((op.action r).apply now r) s

/-- What a request overwrites. -/
def Operation.overwritten (op : Operation) (read : List (RowId × Subscription))
    (rows : Table RowId Subscription) : List Overwrite :=
  if op.Compares then
    read.filterMap fun (id, r) =>
      if op.action r = .leave then none
      else (rows.get id).map fun s => ⟨id, r.revision, s.values⟩
  else []

namespace Db

/-- The stored rules, before any request. -/
def start (stored : Stored) : Db where
  rows := stored.rows
  nextId := stored.nextId
  syncLock := .free
  txns := fun _ => none
  history := fun id => newVersion none (stored.rows.get id)
  overwrites := []
  lists := fun _ => none

/-- The owner's rules. -/
def live (db : Db) (owner : Owner) : List (RowId × Subscription) :=
  db.rows.select fun _ s => s.liveFor owner

/-- The unique index on the client ids of a device's live rows. -/
def indexKeys (rows : Table RowId Subscription) : List (DeviceId × ClientId) :=
  (rows.select fun _ s => s.deletedAt = none).map fun row => (row.2.owner.2, row.2.clientId)

/-- The rows change. -/
def store (db : Db) (rows : Table RowId Subscription) (nextId : Nat) : Db :=
  { db with
    rows := rows
    nextId := nextId
    history := fun id => db.history id ++ newVersion (db.rows.get id) (rows.get id) }

/-- A transaction ends. -/
def finish (db : Db) (t : TxnId) : Db :=
  { db with txns := Function.update db.txns t none, syncLock := db.syncLock.release t }

/-- A transaction has read its rows. -/
def setRead (db : Db) (t : TxnId) (txn : Txn) (read : List (RowId × Subscription)) : Db :=
  { db with txns := Function.update db.txns t (some { txn with read := some read }) }

/-- A request has read its rows, or is refused: `_get_owned_subscription`, the check of
`base_revision`, and the live rules of a PUT. -/
def readRows (db : Db) (t : TxnId) (txn : Txn) : Option Db :=
  match txn.op with
  | .replace _ => some (db.setRead t txn (db.live txn.owner))
  | .replaceV4 _ =>
    if db.syncLock txn.owner.1 = some t then some (db.setRead t txn (db.live txn.owner)) else none
  | .delete id baseRevision =>
    match (db.rows.get id).filter (·.liveFor txn.owner) with
    | none => some (db.finish t)
    | some s =>
      if baseRevision.any (· ≠ (s.revision : Int)) then some (db.finish t)
      else some (db.setRead t txn [(id, s)])

end Db

/-- What can happen. -/
inductive Label
  /-- A PUT or a DELETE arrives. -/
  | begin (t : TxnId) (owner : Owner) (op : Operation)
  /-- `lock_sync_state`. -/
  | lock (t : TxnId)
  /-- The request reads its rows. -/
  | read (t : TxnId)
  /-- It writes what it made of them, and commits. -/
  | commit (t : TxnId) (now : Time) (clientIds : List ClientId)
  /-- The transaction is rolled back: a conflict on the index, a lost connection, a timeout. -/
  | abort (t : TxnId)
  /-- `create_subscription`. -/
  | create (owner : Owner) (values : RuleValues) (clientId : ClientId)
  /-- `patch_subscription`. -/
  | patch (owner : Owner) (id : RowId) (baseRevision : Option Int) (payload : SubscriptionPatch)
  deriving DecidableEq, Repr

/-- A body with one client id twice is refused, and the database draws one for every rule that
comes without. -/
def Operation.Valid (op : Operation) : Prop :=
  match op with
  | .replaceV4 rules => (rules.map (·.clientId)).Nodup
  | _ => True

instance (op : Operation) : Decidable op.Valid := by
  unfold Operation.Valid
  split <;> infer_instance

/-- The ids the database draws are one for each rule that needs one. -/
def Operation.Draws (op : Operation) (clientIds : List ClientId) : Prop :=
  match op with
  | .replace rules => clientIds.length = rules.length
  | _ => clientIds = []

instance (op : Operation) (clientIds : List ClientId) : Decidable (op.Draws clientIds) := by
  unfold Operation.Draws
  split <;> infer_instance

/-- One step. -/
def step (db : Db) : Label → Option Db
  | .begin t owner op =>
    if db.txns t ≠ none then none
    else if op.Valid then
      some { db with txns := Function.update db.txns t (some ⟨owner, op, none⟩) }
    else some db
  | .lock t =>
    match db.txns t with
    | some ⟨owner, .replaceV4 _, none⟩ =>
      if db.syncLock.Available t owner.1 then
        some { db with syncLock := db.syncLock.lock t owner.1 }
      else none
    | _ => none
  | .read t =>
    match db.txns t with
    | some ⟨owner, op, none⟩ => db.readRows t ⟨owner, op, none⟩
    | _ => none
  | .commit t now clientIds =>
    match db.txns t with
    | some ⟨owner, op, some read⟩ =>
      let inserted := op.inserted read clientIds
      let rows := insertRules owner (op.writeRows now read db.rows) db.nextId inserted
      if op.Draws clientIds ∧ (Db.indexKeys rows).Nodup then
        some
          { (db.store rows (db.nextId + inserted.length)).finish t with
            overwrites := db.overwrites ++ op.overwritten read db.rows
            lists := match op.list clientIds with
              | none => db.lists
              | some rules => Function.update db.lists owner (some rules) }
      else none
    | _ => none
  | .abort t => if db.txns t = none then none else some (db.finish t)
  | .create owner values clientId =>
    let rows := insertRules owner db.rows db.nextId [⟨clientId, values⟩]
    if (Db.indexKeys rows).Nodup then some (db.store rows (db.nextId + 1)) else none
  | .patch owner id baseRevision payload =>
    match (db.rows.get id).filter fun s =>
        s.liveFor owner && baseRevision.all (· = (s.revision : Int)) with
    -- No row: the answer is 404 or 409.
    | none => some db
    | some s =>
      let patched := { s with values := payload.apply s.values, revision := s.revision + 1 }
      some
        { db.store (db.rows.modify fun id' s' => if id' = id then patched else s') db.nextId with
          overwrites := db.overwrites ++
            (baseRevision.map fun base => Overwrite.mk id base s.values).toList }

/-! ### What the statements do -/

section Statements

variable {rows : Table RowId Subscription} {owner : Owner} {op : Operation} {now : Time}
  {read : List (RowId × Subscription)} {id nextId : Nat}

theorem liveFor_iff {s : Subscription} : s.liveFor owner ↔ s.owner = owner ∧ s.deletedAt = none := by
  simp [Subscription.liveFor]

theorem mem_live_iff {db : Db} {s : Subscription} :
    (id, s) ∈ db.live owner ↔ db.rows.get id = some s ∧ s.owner = owner ∧ s.deletedAt = none := by
  rw [Db.live, Table.mem_select_iff, liveFor_iff]

/-- The inserted rows follow the stored ones. -/
theorem get_insertRules (rules : List Rule) (hfresh : ∀ id : Nat, nextId ≤ id → rows.get id = none) :
    (insertRules owner rows nextId rules).get id =
      if id < nextId then rows.get id
      else (rules[id - nextId]?).map (Subscription.fresh owner) := by
  induction rules generalizing rows nextId with
  | nil =>
    rw [insertRules]
    split
    · rfl
    next hid => exact hfresh id (Nat.le_of_not_lt hid)
  | cons rule rules ih =>
    rw [insertRules, ih]
    · rw [Table.get_set]
      rcases Nat.lt_trichotomy id nextId with hlt | heq | hgt
      · rw [if_pos (Nat.lt_succ_of_lt hlt), if_neg (Nat.ne_of_lt hlt), if_pos hlt]
      · rw [if_pos (heq ▸ Nat.lt_succ_self _), if_pos heq, if_neg (heq ▸ Nat.lt_irrefl _)]
        simp [heq]
      · rw [if_neg (by omega), if_neg (by omega)]
        have hsub : id - nextId = id - (nextId + 1) + 1 := by omega
        rw [hsub, List.getElem?_cons_succ]
    · intro id' hid'
      rw [Table.get_set, if_neg (Nat.ne_of_gt hid')]
      exact hfresh id' (Nat.le_of_succ_le hid')

/-- A commit writes the rows its request has read. -/
theorem get_writeRows : (op.writeRows now read rows).get id = (rows.get id).map fun s =>
    match read.lookup id with
    | none => s
    | some r => Subscription.written r ((op.action r).apply now r) s :=
  Table.get_modify ..

/-- Written over what was read, a rule takes what was made of it. -/
theorem RuleValues.written_read (read after : RuleValues) :
    RuleValues.written read after read = after := by
  simp only [RuleValues.written, writeColumn_self]

/-- Where nothing was made of a rule, its values stay as they are stored. -/
theorem RuleValues.written_of_eq (read current : RuleValues) :
    RuleValues.written read read current = current := by
  simp [RuleValues.written, writeColumn]

@[simp]
theorem newVersion_self (s : Option Subscription) : newVersion s s = [] := by
  cases s <;> simp [newVersion]

end Statements

/-! ### What a step does -/

variable {db db' : Db} {l : Label} {t : TxnId} {owner : Owner} {op : Operation}
  {read : List (RowId × Subscription)} {now : Time} {clientIds : List ClientId} {id : RowId}

/-- The rows a request may have read. -/
def Db.Reads (db : Db) (t : TxnId) (owner : Owner) (op : Operation)
    (read : List (RowId × Subscription)) : Prop :=
  match op with
  | .replace _ => read = db.live owner
  | .replaceV4 _ => db.syncLock owner.1 = some t ∧ read = db.live owner
  | .delete id baseRevision => ∃ s, db.rows.get id = some s ∧ s.owner = owner ∧
      s.deletedAt = none ∧ (∀ base ∈ baseRevision, base = (s.revision : Int)) ∧ read = [(id, s)]

/-- A step that stores nothing: a request begins, locks, reads or ends. -/
structure Quiet (l : Label) (db db' : Db) : Prop where
  rows : db'.rows = db.rows
  nextId : db'.nextId = db.nextId
  history : db'.history = db.history
  overwrites : db'.overwrites = db.overwrites
  lists : db'.lists = db.lists
  txns : ∀ t txn, db'.txns t = some txn → db.txns t = some txn ∨
    txn.read = none ∧ txn.op.Valid ∧ l = .begin t txn.owner txn.op ∨
    ∃ read, txn.read = some read ∧ db.txns t = some { txn with read := none } ∧
      db.Reads t txn.owner txn.op read
  locked : ∀ u t, db.syncLock u = some t → db'.syncLock u = some t ∨ db'.txns t = none

/-- A commit of what a request has made of its rows. -/
structure Commits (db db' : Db) (t : TxnId) (owner : Owner) (op : Operation)
    (read : List (RowId × Subscription)) (now : Time) (clientIds : List ClientId) : Prop where
  txn : db.txns t = some ⟨owner, op, some read⟩
  draws : op.Draws clientIds
  unique : (Db.indexKeys db'.rows).Nodup
  rows : db'.rows = insertRules owner (op.writeRows now read db.rows) db.nextId
    (op.inserted read clientIds)
  nextId : db'.nextId = db.nextId + (op.inserted read clientIds).length
  history : ∀ id, db'.history id =
    db.history id ++ newVersion (db.rows.get id) (db'.rows.get id)
  overwrites : db'.overwrites = db.overwrites ++ op.overwritten read db.rows
  lists : db'.lists = match op.list clientIds with
    | none => db.lists
    | some rules => Function.update db.lists owner (some rules)
  txns : db'.txns = Function.update db.txns t none
  syncLock : db'.syncLock = db.syncLock.release t

/-- A rule is inserted. -/
structure Creates (db db' : Db) (owner : Owner) (rule : Rule) : Prop where
  rows : db'.rows = insertRules owner db.rows db.nextId [rule]
  nextId : db'.nextId = db.nextId + 1
  history : ∀ id, db'.history id =
    db.history id ++ newVersion (db.rows.get id) (db'.rows.get id)
  unique : (Db.indexKeys db'.rows).Nodup
  overwrites : db'.overwrites = db.overwrites
  lists : db'.lists = db.lists
  txns : db'.txns = db.txns
  syncLock : db'.syncLock = db.syncLock

/-- A live rule of the owner takes the values of a PATCH. -/
structure Patches (db db' : Db) (owner : Owner) (id : RowId) (baseRevision : Option Int)
    (payload : SubscriptionPatch) (s : Subscription) : Prop where
  found : db.rows.get id = some s
  owned : s.owner = owner
  alive : s.deletedAt = none
  compared : ∀ base ∈ baseRevision, base = (s.revision : Int)
  get : ∀ id', db'.rows.get id' =
    if id' = id then some { s with values := payload.apply s.values, revision := s.revision + 1 }
    else db.rows.get id'
  nextId : db'.nextId = db.nextId
  history : ∀ id, db'.history id =
    db.history id ++ newVersion (db.rows.get id) (db'.rows.get id)
  overwrites : db'.overwrites = db.overwrites ++
    (baseRevision.map fun base => Overwrite.mk id base s.values).toList
  lists : db'.lists = db.lists
  txns : db'.txns = db.txns
  syncLock : db'.syncLock = db.syncLock

/-- The end of a transaction stores nothing. -/
theorem Quiet.finish (l : Label) (db : Db) (t : TxnId) : Quiet l db (db.finish t) where
  rows := rfl
  nextId := rfl
  history := rfl
  overwrites := rfl
  lists := rfl
  txns := fun t' txn h => by
    rcases update_cases h with ⟨_, hnew⟩ | ⟨_, hold⟩
    · cases hnew
    · exact .inl hold
  locked := fun u t' h => by
    by_cases ht : t' = t
    · subst ht
      exact .inr (Function.update_self ..)
    · exact .inl (RowLocks.release_of_held h ht)

/-- What a request reads. -/
theorem Quiet.setRead {txn : Txn} (htxn : db.txns t = some txn) (hnone : txn.read = none)
    (hread : db.Reads t txn.owner txn.op read) : Quiet l db (db.setRead t txn read) where
  rows := rfl
  nextId := rfl
  history := rfl
  overwrites := rfl
  lists := rfl
  txns := fun t' txn' h => by
    rcases update_cases h with ⟨rfl, hnew⟩ | ⟨_, hold⟩
    · obtain rfl := Option.some.inj hnew
      have hsame : { txn with read := none } = txn := by rw [← hnone]
      exact .inr (.inr ⟨read, rfl, hsame ▸ htxn, hread⟩)
    · exact .inl hold
  locked := fun _ _ h => .inl h

theorem quiet_of_readRows {txn : Txn} (htxn : db.txns t = some txn) (hnone : txn.read = none)
    (h : db.readRows t txn = some db') : Quiet l db db' := by
  unfold Db.readRows at h
  split at h
  next rules hop =>
    cases h
    refine Quiet.setRead htxn hnone ?_
    rw [hop]
    exact rfl
  next rules hop =>
    split at h
    next hlock =>
      cases h
      refine Quiet.setRead htxn hnone ?_
      rw [hop]
      exact ⟨hlock, rfl⟩
    next => cases h
  next id baseRevision hop =>
    split at h
    · cases h
      exact Quiet.finish _ db t
    next s hs =>
      obtain ⟨hget, hlive⟩ := Option.filter_eq_some_iff.mp hs
      obtain ⟨howner, halive⟩ := liveFor_iff.mp hlive
      split at h
      · cases h
        exact Quiet.finish _ db t
      next hbase =>
        cases h
        refine Quiet.setRead htxn hnone ?_
        rw [hop]
        refine ⟨s, hget, howner, halive, fun base hmem => ?_, rfl⟩
        by_contra hne
        obtain rfl : baseRevision = some base := hmem
        exact hbase (by simpa using hne)

/-- What a step does to the stored rules. -/
theorem step_cases (h : step db l = some db') :
    (Quiet l db db' ∧ ∀ t now clientIds, l ≠ .commit t now clientIds) ∨
      (∃ t now clientIds, l = .commit t now clientIds ∧
        ∃ owner op read, Commits db db' t owner op read now clientIds) ∨
      (∃ owner values clientId, l = .create owner values clientId ∧
        Creates db db' owner ⟨clientId, values⟩) ∨
      ∃ owner id baseRevision payload, l = .patch owner id baseRevision payload ∧
        ∃ s, Patches db db' owner id baseRevision payload s := by
  cases l with
  | begin t owner op =>
    refine .inl ⟨?_, by simp⟩
    simp only [step] at h
    split at h
    · cases h
    next hnew =>
      split at h
      next hvalid =>
        cases h
        refine ⟨rfl, rfl, rfl, rfl, rfl, fun t' txn htxn => ?_, fun _ _ h => .inl h⟩
        rcases update_cases htxn with ⟨rfl, hsome⟩ | ⟨_, hold⟩
        · obtain rfl := Option.some.inj hsome
          exact .inr (.inl ⟨rfl, hvalid, rfl⟩)
        · exact .inl hold
      next =>
        cases h
        exact ⟨rfl, rfl, rfl, rfl, rfl, fun _ _ h => .inl h, fun _ _ h => .inl h⟩
  | lock t =>
    refine .inl ⟨?_, by simp⟩
    simp only [step] at h
    split at h
    next owner rules htxn =>
      split at h
      next hfree =>
        cases h
        exact ⟨rfl, rfl, rfl, rfl, rfl, fun _ _ h => .inl h,
          fun _ _ h => .inl (RowLocks.lock_of_held h hfree)⟩
      next => cases h
    next => cases h
  | read t =>
    refine .inl ⟨?_, by simp⟩
    simp only [step] at h
    split at h
    next owner op htxn => exact quiet_of_readRows htxn rfl h
    next => cases h
  | commit t now clientIds =>
    refine .inr (.inl ⟨t, now, clientIds, rfl, ?_⟩)
    simp only [step] at h
    split at h
    next owner op read htxn =>
      split at h
      next hok =>
        cases h
        exact ⟨owner, op, read, htxn, hok.1, hok.2, rfl, rfl, fun _ => rfl, rfl, rfl, rfl, rfl⟩
      next => cases h
    next => cases h
  | abort t =>
    refine .inl ⟨?_, by simp⟩
    simp only [step] at h
    split at h
    · cases h
    · cases h
      exact Quiet.finish _ db t
  | create owner values clientId =>
    refine .inr (.inr (.inl ⟨owner, values, clientId, rfl, ?_⟩))
    simp only [step] at h
    split at h
    next hunique =>
      cases h
      exact ⟨rfl, rfl, fun _ => rfl, hunique, rfl, rfl, rfl, rfl⟩
    next => cases h
  | patch owner id baseRevision payload =>
    simp only [step] at h
    split at h
    · cases h
      exact .inl ⟨⟨rfl, rfl, rfl, rfl, rfl, fun _ _ h => .inl h, fun _ _ h => .inl h⟩, by simp⟩
    next s hs =>
      cases h
      obtain ⟨hget, hcond⟩ := Option.filter_eq_some_iff.mp hs
      obtain ⟨hlive, hbase⟩ := Bool.and_eq_true_iff.mp hcond
      obtain ⟨howner, halive⟩ := liveFor_iff.mp hlive
      refine .inr (.inr (.inr ⟨owner, id, baseRevision, payload, rfl, s, hget, howner, halive,
        fun base hmem => ?_, fun id' => ?_, rfl, fun _ => rfl, rfl, rfl, rfl, rfl⟩))
      · obtain rfl : baseRevision = some base := hmem
        simpa using hbase
      · refine (Table.get_modify ..).trans ?_
        split
        next hid => rw [hid, hget]; rfl
        next => exact Option.map_id' ..

/-! ### What every step keeps -/

/-- One live row of each client id of a device. -/
def UniqueClients (rows : Table RowId Subscription) : Prop :=
  ∀ id s, rows.get id = some s → s.deletedAt = none → ∀ id' s', rows.get id' = some s' →
    s'.deletedAt = none → s'.owner.2 = s.owner.2 → s'.clientId = s.clientId → id' = id

/-- What holds in every reachable state. -/
structure Db.Sound (db : Db) : Prop where
  below : ∀ (id : Nat) s, db.rows.get id = some s → id < db.nextId
  unique : UniqueClients db.rows
  /-- A row is at the last of its versions. -/
  last : ∀ id, (db.history id).getLast? = (db.rows.get id).map (·.version)
  valid : ∀ t txn, db.txns t = some txn → txn.op.Valid
  /-- A request has read each row once. -/
  nodup : ∀ t txn read, db.txns t = some txn → txn.read = some read →
    (read.map Prod.fst).Nodup
  /-- A request has read live rows of its owner, which stay stored as that rule of that owner. -/
  read : ∀ t txn read, db.txns t = some txn → txn.read = some read → ∀ row ∈ read,
    row.2.owner = txn.owner ∧ row.2.deletedAt = none ∧ row.2.version ∈ db.history row.1 ∧
      ∃ s, db.rows.get row.1 = some s ∧ s.owner = row.2.owner ∧ s.clientId = row.2.clientId
  /-- No two of the rows a request has read are one rule of the client's. -/
  clients : ∀ t txn read, db.txns t = some txn → txn.read = some read →
    ∀ row ∈ read, ∀ row' ∈ read, row.2.clientId = row'.2.clientId → row = row'

/-- The index holds no key twice where no two live rows share one. -/
theorem uniqueClients_of_index {rows : Table RowId Subscription}
    (h : (Db.indexKeys rows).Nodup) : UniqueClients rows := by
  intro id s hs halive id' s' hs' halive' hdevice hclient
  have hmem : (id, s) ∈ rows.select fun _ s => s.deletedAt = none :=
    (Table.mem_select_iff ..).mpr ⟨hs, by simpa using halive⟩
  have hmem' : (id', s') ∈ rows.select fun _ s => s.deletedAt = none :=
    (Table.mem_select_iff ..).mpr ⟨hs', by simpa using halive'⟩
  have hsame := List.inj_on_of_nodup_map h hmem' hmem (Prod.ext hdevice hclient)
  exact congrArg Prod.fst hsame

theorem Db.Sound.start (stored : Stored) : (Db.start stored).Sound where
  below := stored.below
  unique := stored.unique
  last := fun id => by
    show (newVersion none (stored.rows.get id)).getLast? = (stored.rows.get id).map (·.version)
    cases stored.rows.get id <;> rfl
  valid := fun _ _ h => by cases h
  nodup := fun _ _ _ h => by cases h
  read := fun _ _ _ h => by cases h
  clients := fun _ _ _ h => by cases h

theorem Db.Sound.fresh (hsound : db.Sound) (id : Nat) (hid : db.nextId ≤ id) :
    db.rows.get id = none := by
  cases hrow : db.rows.get id with
  | none => rfl
  | some s => exact absurd (hsound.below id s hrow) (Nat.not_lt.mpr hid)

/-- What a row is at is one of its versions. -/
theorem Db.Sound.version_mem (hsound : db.Sound) {s : Subscription} (hs : db.rows.get id = some s) :
    s.version ∈ db.history id := by
  have hlast := hsound.last id
  rw [hs] at hlast
  exact List.mem_of_getLast? hlast

/-- A row a request has read is not inserted by it. -/
theorem lookup_eq_none_of_fresh (hsound : db.Sound) (htxn : db.txns t = some ⟨owner, op, some read⟩)
    {s : Subscription} (hs : db.rows.get id = none) : (id, s) ∉ read := fun hmem => by
  obtain ⟨_, _, _, stored, hstored, _⟩ := hsound.read t _ read htxn rfl _ hmem
  rw [hs] at hstored
  cases hstored

/-- The row a request has read under an id. -/
theorem lookup_eq_some_iff (hsound : db.Sound) (htxn : db.txns t = some ⟨owner, op, some read⟩)
    {r : Subscription} : read.lookup id = some r ↔ (id, r) ∈ read := by
  have hnodup := hsound.nodup t _ read htxn rfl
  exact Table.get_eq_some_iff ⟨read, hnodup⟩ id r

section Rows

/-- A commit writes the rows its request has read, and inserts its new ones. -/
theorem Commits.get (h : Commits db db' t owner op read now clientIds) (hsound : db.Sound)
    (id : Nat) : db'.rows.get id = if id < db.nextId then
      (db.rows.get id).map fun s =>
        match read.lookup id with
        | none => s
        | some r => Subscription.written r ((op.action r).apply now r) s
      else ((op.inserted read clientIds)[id - db.nextId]?).map (Subscription.fresh owner) := by
  rw [h.rows, get_insertRules]
  · split
    · exact get_writeRows
    · rfl
  · intro id' hid'
    rw [get_writeRows, hsound.fresh id' hid', Option.map_none]

theorem Creates.get {rule : Rule} (h : Creates db db' owner rule) (id : Nat) :
    db'.rows.get id = if id = db.nextId then some (.fresh owner rule) else db.rows.get id := by
  rw [h.rows]
  exact Table.get_set ..

/-- A row stays stored as the rule of its owner that it is. -/
def Stays (db db' : Db) : Prop :=
  ∀ id s, db.rows.get id = some s →
    ∃ s', db'.rows.get id = some s' ∧ s'.owner = s.owner ∧ s'.clientId = s.clientId

theorem Commits.stays (h : Commits db db' t owner op read now clientIds) (hsound : db.Sound) :
    Stays db db' := by
  intro id s hs
  rw [h.get hsound, if_pos (hsound.below id s hs), hs]
  refine ⟨_, rfl, ?_⟩
  split <;> exact ⟨rfl, rfl⟩

theorem Creates.stays {rule : Rule} (h : Creates db db' owner rule) (hsound : db.Sound) :
    Stays db db' := by
  intro id s hs
  refine ⟨s, ?_, rfl, rfl⟩
  rw [h.get, if_neg (Nat.ne_of_lt (hsound.below id s hs))]
  exact hs

theorem Patches.stays {baseRevision : Option Int} {payload : SubscriptionPatch} {s : Subscription}
    (h : Patches db db' owner id baseRevision payload s) : Stays db db' := by
  intro id' s' hs'
  rw [h.get]
  split
  next hid =>
    obtain rfl : s = s' := Option.some.inj (h.found.symm.trans (hid ▸ hs'))
    exact ⟨_, rfl, rfl, rfl⟩
  next => exact ⟨s', hs', rfl, rfl⟩

end Rows

/-- A new version of a row is its last. -/
theorem getLast?_append_newVersion {versions : List Version} {before after : Option Subscription}
    (hlast : versions.getLast? = before.map (·.version)) (hstays : before.isSome → after.isSome) :
    (versions ++ newVersion before after).getLast? = after.map (·.version) := by
  cases after with
  | none =>
    cases before with
    | none => simpa [newVersion] using hlast
    | some s => exact absurd (hstays rfl) (by simp)
  | some s' =>
    simp only [newVersion]
    split
    next hsame => rw [List.append_nil, hlast, hsame, Option.map_some]
    next => rw [List.getLast?_append_of_ne_nil _ (by simp)]; rfl

/-- Rows that stay stored and grow their histories keep what the requests have read. -/
theorem Db.Sound.advance (hsound : db.Sound) (hstays : Stays db db')
    (hhistory : ∀ id, db'.history id =
      db.history id ++ newVersion (db.rows.get id) (db'.rows.get id))
    (htxns : ∀ t txn, db'.txns t = some txn → db.txns t = some txn)
    (hbelow : ∀ (id : Nat) s, db'.rows.get id = some s → id < db'.nextId)
    (hunique : UniqueClients db'.rows) : db'.Sound where
  below := hbelow
  unique := hunique
  last := fun id => by
    rw [hhistory]
    refine getLast?_append_newVersion (hsound.last id) fun hsome => ?_
    obtain ⟨s, hs⟩ := Option.isSome_iff_exists.mp hsome
    obtain ⟨s', hs', _⟩ := hstays id s hs
    exact Option.isSome_iff_exists.mpr ⟨s', hs'⟩
  valid := fun t txn h => hsound.valid t txn (htxns t txn h)
  nodup := fun t txn read h hread => hsound.nodup t txn read (htxns t txn h) hread
  read := fun t txn read h hread row hrow => by
    obtain ⟨howner, halive, hversion, s, hs, hsowner, hsclient⟩ :=
      hsound.read t txn read (htxns t txn h) hread row hrow
    obtain ⟨s', hs', hsowner', hsclient'⟩ := hstays row.1 s hs
    refine ⟨howner, halive, ?_, s', hs', hsowner'.trans hsowner, hsclient'.trans hsclient⟩
    rw [hhistory]
    exact List.mem_append_left _ hversion
  clients := fun t txn read h hread => hsound.clients t txn read (htxns t txn h) hread

/-- What a request may read are stored, live rows of its owner, each once. -/
theorem Db.Reads.mem (hreads : db.Reads t owner op read) {row : RowId × Subscription}
    (hrow : row ∈ read) :
    db.rows.get row.1 = some row.2 ∧ row.2.owner = owner ∧ row.2.deletedAt = none := by
  unfold Db.Reads at hreads
  split at hreads
  · subst hreads
    exact mem_live_iff.mp hrow
  · obtain ⟨_, rfl⟩ := hreads
    exact mem_live_iff.mp hrow
  · obtain ⟨s, hs, howner, halive, _, rfl⟩ := hreads
    obtain rfl := List.mem_singleton.mp hrow
    exact ⟨hs, howner, halive⟩

theorem Db.Reads.nodup (hreads : db.Reads t owner op read) : (read.map Prod.fst).Nodup := by
  have hlive : ((db.live owner).map Prod.fst).Nodup :=
    db.rows.keys_nodup.sublist (List.filter_sublist.map Prod.fst)
  unfold Db.Reads at hreads
  split at hreads
  · exact hreads ▸ hlive
  · exact hreads.2 ▸ hlive
  · obtain ⟨s, _, _, _, _, rfl⟩ := hreads
    exact List.nodup_singleton _

theorem Db.Sound.quiet (hsound : db.Sound) (h : Quiet l db db') : db'.Sound where
  below := fun id s hs => h.nextId ▸ hsound.below id s (h.rows ▸ hs)
  unique := h.rows ▸ hsound.unique
  last := fun id => by
    rw [h.history, h.rows]
    exact hsound.last id
  valid := fun t txn htxn => by
    rcases h.txns t txn htxn with hold | ⟨_, hvalid, _⟩ | ⟨read, _, hold, _⟩
    · exact hsound.valid t txn hold
    · exact hvalid
    · exact hsound.valid t { txn with read := none } hold
  nodup := fun t txn read htxn hread => by
    rcases h.txns t txn htxn with hold | ⟨hnone, _⟩ | ⟨read', hread', _, hreads⟩
    · exact hsound.nodup t txn read hold hread
    · cases hnone.symm.trans hread
    · obtain rfl := Option.some.inj (hread'.symm.trans hread)
      exact hreads.nodup
  read := fun t txn read htxn hread row hrow => by
    rw [h.history, h.rows]
    rcases h.txns t txn htxn with hold | ⟨hnone, _⟩ | ⟨read', hread', _, hreads⟩
    · exact hsound.read t txn read hold hread row hrow
    · cases hnone.symm.trans hread
    · obtain rfl := Option.some.inj (hread'.symm.trans hread)
      obtain ⟨hs, howner, halive⟩ := hreads.mem hrow
      exact ⟨howner, halive, hsound.version_mem hs, row.2, hs, rfl, rfl⟩
  clients := fun t txn read htxn hread row hrow row' hrow' hclient => by
    rcases h.txns t txn htxn with hold | ⟨hnone, _⟩ | ⟨read', hread', _, hreads⟩
    · exact hsound.clients t txn read hold hread row hrow row' hrow' hclient
    · cases hnone.symm.trans hread
    · obtain rfl := Option.some.inj (hread'.symm.trans hread)
      obtain ⟨hs, howner, halive⟩ := hreads.mem hrow
      obtain ⟨hs', howner', halive'⟩ := hreads.mem hrow'
      have hid := hsound.unique row'.1 row'.2 hs' halive' row.1 row.2 hs halive
        (congrArg Prod.snd (howner.trans howner'.symm)) hclient
      refine Prod.ext hid (Option.some.inj ?_)
      rw [← hs, ← hs', hid]

theorem Db.Sound.step (hsound : db.Sound) (h : Subscriptions.step db l = some db') :
    db'.Sound := by
  rcases step_cases h with ⟨hquiet, _⟩ | ⟨t, now, clientIds, _, owner, op, read, hcommit⟩ |
    ⟨owner, values, clientId, _, hcreate⟩ | ⟨owner, id, baseRevision, payload, _, s, hpatch⟩
  · exact hsound.quiet hquiet
  · refine hsound.advance (hcommit.stays hsound) hcommit.history (fun t' txn htxn => ?_)
      (fun id s hs => ?_) (uniqueClients_of_index hcommit.unique)
    · rw [hcommit.txns] at htxn
      rcases update_cases htxn with ⟨_, hnew⟩ | ⟨_, hold⟩
      · cases hnew
      · exact hold
    · rw [hcommit.nextId]
      rw [hcommit.get hsound] at hs
      split at hs
      next hlt => exact Nat.lt_add_right _ hlt
      next hge =>
        obtain ⟨rule, hrule, _⟩ := Option.map_eq_some_iff.mp hs
        obtain ⟨hlt, _⟩ := List.getElem?_eq_some_iff.mp hrule
        omega
  · refine hsound.advance (hcreate.stays hsound) hcreate.history (fun t txn htxn => ?_)
      (fun id s hs => ?_) (uniqueClients_of_index hcreate.unique)
    · exact hcreate.txns ▸ htxn
    · rw [hcreate.nextId]
      rw [hcreate.get] at hs
      split at hs
      next hid => exact hid ▸ Nat.lt_succ_self _
      next => exact Nat.lt_succ_of_lt (hsound.below id s hs)
  · refine hsound.advance hpatch.stays hpatch.history (fun t txn htxn => hpatch.txns ▸ htxn)
      (fun id' s' hs' => ?_) ?_
    · rw [hpatch.nextId]
      rw [hpatch.get] at hs'
      split at hs'
      next hid => exact hid ▸ hsound.below id s hpatch.found
      next => exact hsound.below id' s' hs'
    · -- A PATCH changes neither the client id nor whether the row is live.
      have hold : ∀ id' s', db'.rows.get id' = some s' → ∃ s₀, db.rows.get id' = some s₀ ∧
          s₀.owner = s'.owner ∧ s₀.clientId = s'.clientId ∧ s₀.deletedAt = s'.deletedAt := by
        intro id' s' hs'
        rw [hpatch.get] at hs'
        split at hs'
        next hid =>
          obtain rfl := Option.some.inj hs'
          exact ⟨s, hid ▸ hpatch.found, rfl, rfl, rfl⟩
        next => exact ⟨s', hs', rfl, rfl, rfl⟩
      intro id₁ s₁ hs₁ halive₁ id₂ s₂ hs₂ halive₂ hdevice hclient
      obtain ⟨r₁, hr₁, ho₁, hc₁, hd₁⟩ := hold id₁ s₁ hs₁
      obtain ⟨r₂, hr₂, ho₂, hc₂, hd₂⟩ := hold id₂ s₂ hs₂
      refine hsound.unique id₁ r₁ hr₁ (hd₁.trans halive₁) id₂ r₂ hr₂ (hd₂.trans halive₂) ?_ ?_
      · rw [ho₁, ho₂, hdevice]
      · rw [hc₁, hc₂, hclient]

end TigerDuck.Bulletins.Subscriptions
