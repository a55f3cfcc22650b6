import Mathlib.Data.List.Sort
import Mathlib.Logic.Function.Basic
import TigerDuck.Relational.Table
import TigerDuck.Transition.Run

/-!
# The processing of bulletins

`claim_pending_bulletins`, the `_process_one` of the scheduler's job and of the backfill script,
`attach_body_and_dedup` and `_mark_failed`, one transaction or one answer from outside a step;
`attach_body_and_dedup` is two, as its commit comes after what it has read. A worker is one
`process_job` or one backfill.

The pages fetched and the classifier's answers are arbitrary. Not modelled: the columns the
processing neither reads nor writes (the publisher, the dates, the notification), and the logs.
-/

namespace TigerDuck.Bulletins

open Relational

abbrev BulletinId := Nat

abbrev WorkerId := Nat

inductive BulletinProcessingState
  | pending
  | processed
  | failed
  | skipped
  deriving DecidableEq, Repr

/-- A row of `bulletins`. -/
structure Bulletin where
  source : String
  externalId : String
  canonicalOrg : Option String
  contentTags : List String
  summary : Option String
  bodyClean : Option String
  importance : Option String
  title : String
  titleClean : Option String
  bodyMd : Option String
  contentHash : Option String
  processingState : BulletinProcessingState
  processingError : Option String
  processingAttempts : Nat
  isDeleted : Bool
  deriving DecidableEq, Repr

/-- The classifier's answer. -/
structure BulletinMetadata where
  canonicalOrg : String
  contentTags : List String
  title : String
  summary : String
  bodyClean : String
  importance : String
  deriving DecidableEq, Repr

/-- The settings, with the normalization and the digest of `compute_content_hash`. -/
structure Settings where
  bulletinMaxProcessAttempts : Nat
  normalizeForHash : String → String
  sha256 : String → String

def SCRAPED_SOURCE : String := "ntust_general"

def Settings.computeContentHash (cfg : Settings) (title bodyMd : String) : String :=
  cfg.sha256 (cfg.normalizeForHash title ++ "\n" ++ cfg.normalizeForHash bodyMd)

/-- The first `n` characters. -/
def truncated (s : String) (n : Nat) : String := String.ofList (s.toList.take n)

/-! ### Writes to a row -/

/-- A row `upsert_list_rows` inserts. -/
def Bulletin.listed (externalId title : String) : Bulletin where
  source := SCRAPED_SOURCE
  externalId := externalId
  canonicalOrg := none
  contentTags := []
  summary := none
  bodyClean := none
  importance := none
  title := title
  titleClean := none
  bodyMd := none
  contentHash := none
  processingState := .pending
  processingError := none
  processingAttempts := 0
  isDeleted := false

/-- Whether `claim_pending_bulletins` may pick the row. -/
def Bulletin.claimable (cfg : Settings) (b : Bulletin) : Bool :=
  b.processingState = .pending && b.processingAttempts < cfg.bulletinMaxProcessAttempts &&
    !b.isDeleted

/-- The row as `attach_body_and_dedup` leaves it in its session, `original` being the bulletin
it reposts. -/
def Bulletin.attached (b : Bulletin) (bodyMd contentHash : String) :
    Option BulletinId → Bulletin
  | some original =>
    { b with
      bodyMd := some bodyMd
      processingState := .skipped
      processingError := some s!"content duplicate of bulletin {original}" }
  | none => { b with bodyMd := some bodyMd, contentHash := some contentHash }

/-- The row once that session has committed, `read` being what it had read. -/
def Bulletin.written (read after current : Bulletin) : Bulletin :=
  { current with
    bodyMd := writeColumn read.bodyMd after.bodyMd current.bodyMd
    contentHash := writeColumn read.contentHash after.contentHash current.contentHash
    processingState :=
      writeColumn read.processingState after.processingState current.processingState
    processingError :=
      writeColumn read.processingError after.processingError current.processingError }

/-- The row with the classifier's answer. -/
def Bulletin.classified (answer : BulletinMetadata) (b : Bulletin) : Bulletin :=
  { b with
    canonicalOrg := some answer.canonicalOrg
    contentTags := answer.contentTags
    titleClean := if answer.title = "" then none else some answer.title
    summary := some answer.summary
    bodyClean := some answer.bodyClean
    importance := some answer.importance
    processingState := .processed
    processingError := none }

/-- The row `_mark_failed` leaves. -/
def Bulletin.markFailed (state : BulletinProcessingState) (reason : String) (b : Bulletin) :
    Bulletin :=
  { b with processingState := state, processingError := some (truncated reason 500) }

/-- The state `_mark_failed` decides on. -/
def Bulletin.failureState (cfg : Settings) (b : Bulletin) : BulletinProcessingState :=
  if b.processingAttempts < cfg.bulletinMaxProcessAttempts then .pending else .failed

/-! ### Workers -/

/-- Where a `_process_one` is. -/
inductive Phase
  /-- Claimed, and not begun. -/
  | claimed
  | fetching
  | attaching (bodyMd : String)
  /-- Before the commit of `attach_body_and_dedup`, with the row and the original it has read. -/
  | attached (bodyMd : String) (read : Bulletin) (original : Option BulletinId)
  | classifying
  | classified (answer : BulletinMetadata)
  | failing (reason : String)
  /-- `_mark_failed` has read the attempts. -/
  | marking (state : BulletinProcessingState) (reason : String)
  | done
  deriving DecidableEq

/-- A `_process_one` of a claimed bulletin. -/
structure Task where
  bulletinId : BulletinId
  phase : Phase
  deriving DecidableEq

inductive Program
  | processJob
  | backfill (concurrency : Nat)

/-- How many bulletins are under way at once: the job takes one after another. -/
def Program.concurrency : Program → Nat
  | .processJob => 1
  | .backfill concurrency => concurrency

/-- A worker with the bulletins of its last claim, in the order of the claim. -/
structure Worker where
  program : Program
  tasks : List Task

/-- A worker claims once it is done with what it has claimed before; `process_job` claims once. -/
def Worker.mayClaim (w : Worker) : Bool :=
  match w.program with
  | .processJob => w.tasks.isEmpty
  | .backfill _ => w.tasks.all fun t => t.phase = .done

/-- The next bulletin to begin, when a place is free. -/
def Worker.next (w : Worker) : Option BulletinId :=
  if (w.tasks.filter fun t => t.phase ≠ .claimed ∧ t.phase ≠ .done).length <
      w.program.concurrency then
    (w.tasks.find? fun t => t.phase = .claimed).map (·.bulletinId)
  else none

/-- The phase of the worker's task of a bulletin. -/
def Worker.phaseOf (w : Worker) (id : BulletinId) : Option Phase :=
  (w.tasks.find? fun t => t.bulletinId = id).map (·.phase)

def Worker.setPhase (w : Worker) (id : BulletinId) (phase : Phase) : Worker :=
  { w with tasks := w.tasks.map fun t => if t.bulletinId = id then { t with phase } else t }

/-! ### The system -/

structure Db where
  bulletins : Table BulletinId Bulletin
  nextBulletin : BulletinId
  workers : WorkerId → Option Worker
  nextWorker : WorkerId

def Db.initial : Db where
  bulletins := Table.empty
  nextBulletin := 0
  workers := fun _ => none
  nextWorker := 0

/-- What a bulletin under way does next, or what it is answered. -/
inductive Act
  /-- The detail page: an HTTP error, a page without a body, or its body. -/
  | detail (answer : Except String (Option String))
  | readRow
  | attach
  | llm (answer : Except String BulletinMetadata)
  | store
  | readAttempts
  | mark
  /-- An exception that `_process_one` does not catch, or the end of its process. -/
  | raise

inductive Label
  | start (program : Program)
  /-- `claim_pending_bulletins`, with the rows that other transactions have locked. -/
  | claim (w : WorkerId) (limit : Nat) (locked : List BulletinId)
  | begin (w : WorkerId)
  | act (w : WorkerId) (id : BulletinId) (a : Act)
  /-- A row of a list page. -/
  | listRow (externalId title : String)
  /-- `_mark_stale_deleted`, with the bulletins last seen before its threshold. -/
  | markStaleDeleted (stale : List BulletinId)
  /-- `retention_job`, with the bulletins last seen before its cutoff. -/
  | retention (aged : List BulletinId)

/-- The bulletins `claim_pending_bulletins` picks. -/
def Db.claimIds (cfg : Settings) (db : Db) (limit : Nat) (locked : List BulletinId) :
    List BulletinId :=
  (((db.bulletins.select fun id b => b.claimable cfg && decide (id ∉ locked)).map
    Prod.fst).insertionSort (· ≤ ·)).take limit

/-- `UPDATE bulletins … WHERE id = :id`. -/
def Db.update (db : Db) (id : BulletinId) (f : Bulletin → Bulletin) : Table BulletinId Bulletin :=
  db.bulletins.modify fun id' b => if id' = id then f b else b

/-- Another bulletin of the source under the content hash. -/
def Db.original (db : Db) (id : BulletinId) (source contentHash : String) : Option BulletinId :=
  ((db.bulletins.select fun id' b =>
    b.source = source ∧ b.contentHash = some contentHash ∧ id' ≠ id).head?).map Prod.fst

/-- The commit of `attach_body_and_dedup`. A row that is gone, or a content hash that another
bulletin has got meanwhile, raises; what the session has not changed it does not write. -/
def Db.attach (cfg : Settings) (db : Db) (id : BulletinId) (bodyMd : String) (read : Bulletin)
    (original : Option BulletinId) : Table BulletinId Bulletin × Phase :=
  let contentHash := cfg.computeContentHash read.title bodyMd
  let after := read.attached bodyMd contentHash original
  let taken := after.contentHash ≠ read.contentHash ∧ (db.original id read.source contentHash).isSome
  if after ≠ read ∧ ((db.bulletins.get id).isNone ∨ taken) then (db.bulletins, .done)
  else
    (db.update id (read.written after), if original.isSome then .done else .classifying)

/-- One step of a bulletin under way: the rows after it and its next phase. -/
def Db.taskStep (cfg : Settings) (db : Db) (id : BulletinId) :
    Phase → Act → Option (Table BulletinId Bulletin × Phase)
  | .done, _ => none
  | _, .raise => some (db.bulletins, .done)
  | .fetching, .detail (.error e) => some (db.bulletins, .failing s!"detail fetch: {e}")
  | .fetching, .detail (.ok none) => some (db.bulletins, .failing "trafilatura empty extract")
  | .fetching, .detail (.ok (some bodyMd)) => some (db.bulletins, .attaching bodyMd)
  | .attaching bodyMd, .readRow =>
    match db.bulletins.get id with
    | none => some (db.bulletins, .done)
    | some read =>
      let contentHash := cfg.computeContentHash read.title bodyMd
      some (db.bulletins, .attached bodyMd read (db.original id read.source contentHash))
  | .attached bodyMd read original, .attach => some (db.attach cfg id bodyMd read original)
  | .classifying, .llm (.error e) => some (db.bulletins, .failing s!"llm: {e}")
  | .classifying, .llm (.ok answer) => some (db.bulletins, .classified answer)
  | .classified answer, .store => some (db.update id (Bulletin.classified answer), .done)
  | .failing reason, .readAttempts =>
    match db.bulletins.get id with
    | none => some (db.bulletins, .done)
    | some b => some (db.bulletins, .marking (b.failureState cfg) reason)
  | .marking state reason, .mark => some (db.update id (Bulletin.markFailed state reason), .done)
  | _, _ => none

def Db.setWorker (db : Db) (w : WorkerId) (worker : Worker) : Db :=
  { db with workers := Function.update db.workers w (some worker) }

/-- The phase a task begins with: the scheduler's reads the row once more. -/
def Db.beginPhase (db : Db) (program : Program) (id : BulletinId) : Phase :=
  match program with
  | .processJob => if (db.bulletins.get id).isSome then .fetching else .done
  | .backfill _ => .fetching

/-- One step. -/
def step (cfg : Settings) (db : Db) : Label → Option Db
  | .start program =>
    some { db.setWorker db.nextWorker ⟨program, []⟩ with nextWorker := db.nextWorker + 1 }
  | .claim w limit locked =>
    (db.workers w).bind fun worker =>
      if worker.mayClaim then
        let ids := db.claimIds cfg limit locked
        let bulletins := db.bulletins.modify fun id b =>
          if id ∈ ids then { b with processingAttempts := b.processingAttempts + 1 } else b
        some ({ db with bulletins }.setWorker w { worker with tasks := ids.map (⟨·, .claimed⟩) })
      else none
  | .begin w =>
    (db.workers w).bind fun worker => worker.next.map fun id =>
      db.setWorker w (worker.setPhase id (db.beginPhase worker.program id))
  | .act w id a =>
    (db.workers w).bind fun worker => (worker.phaseOf id).bind fun phase =>
      (db.taskStep cfg id phase a).map fun (bulletins, phase') =>
        { db with bulletins }.setWorker w (worker.setPhase id phase')
  | .listRow externalId title =>
    let seen := db.bulletins.select fun _ b =>
      b.source = SCRAPED_SOURCE ∧ b.externalId = externalId
    if seen.isEmpty then
      some { db with
        bulletins := db.bulletins.set db.nextBulletin (.listed externalId title)
        nextBulletin := db.nextBulletin + 1 }
    else some db
  | .markStaleDeleted stale =>
    some { db with
      bulletins := db.bulletins.modify fun id b =>
        if b.source = SCRAPED_SOURCE ∧ id ∈ stale then { b with isDeleted := true } else b }
  | .retention aged =>
    some { db with bulletins := db.bulletins.deleteWhere fun id b => b.isDeleted && decide (id ∈ aged) }

end TigerDuck.Bulletins
