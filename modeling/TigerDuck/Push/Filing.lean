import TigerDuck.Push.Writes

/-!
# Filing

What `INSERT … ON CONFLICT DO NOTHING` makes of `push_jobs`: no row changes, and every key that
is filed has an active job afterwards.

- `Db.Filed`: what filing a list of jobs makes of the table.
- `filed_fileJobs`: a list of jobs is filed so.
-/

namespace TigerDuck.Push

open Relational

namespace Db

/-- Some active job of the user has the key. -/
def Holds (db : Db) (userId : UserId) (key : DedupeKey) : Prop :=
  ∃ j job, db.jobs.get j = some job ∧ job.userId = userId ∧ job.dedupeKey = key ∧
    job.status.dedupeActive = true

/-- `ux_push_jobs_dedupe_active`. -/
def KeysUnique (db : Db) : Prop :=
  ∀ j j' job job', db.jobs.get j = some job → db.jobs.get j' = some job' →
    job.userId = job'.userId → job.dedupeKey = job'.dedupeKey →
      job.status.dedupeActive = true → job'.status.dedupeActive = true → j = j'

variable {db db' : Db} {now : Time} {new : NewJob}

/-- The select behind an insert's conflict. -/
theorem select_isEmpty_iff :
    (db.jobs.select fun _ job => job.userId = new.userId ∧ job.dedupeKey = new.dedupeKey ∧
      job.status.dedupeActive = true).isEmpty = true ↔ ¬ db.Holds new.userId new.dedupeKey := by
  rw [List.isEmpty_iff, Table.select, List.filter_eq_nil_iff]
  constructor
  · rintro hnone ⟨j, job, hjob, hholds⟩
    exact hnone (j, job) ((Table.get_eq_some_iff ..).mp hjob) (decide_eq_true hholds)
  · rintro hfree ⟨j, job⟩ hmem hholds
    exact hfree ⟨j, job, (Table.get_eq_some_iff ..).mpr hmem, of_decide_eq_true hholds⟩

theorem fileJob_of_holds (h : db.Holds new.userId new.dedupeKey) : db.fileJob now new = db := by
  unfold fileJob
  dsimp only
  rw [if_neg fun hempty => select_isEmpty_iff.mp hempty h]

theorem fileJob_of_not_holds (h : ¬ db.Holds new.userId new.dedupeKey) :
    db.fileJob now new =
      { db with jobs := db.jobs.set db.nextJob (new.row now), nextJob := db.nextJob + 1 } := by
  unfold fileJob
  dsimp only
  rw [if_pos (select_isEmpty_iff.mpr h)]

/-- What filing a list of jobs makes of the table: no row changes, the new ones are of the list,
and every key of it has an active job. -/
structure Filed (now : Time) (rows : List NewJob) (db db' : Db) : Prop where
  below : JobsBelow db'
  unique : db'.KeysUnique
  kept : ∀ j job, db.jobs.get j = some job → db'.jobs.get j = some job
  new : ∀ j job, db'.jobs.get j = some job → db.jobs.get j = some job ∨
    db.jobs.get j = none ∧ ∃ new ∈ rows, job = new.row now
  holds : ∀ new ∈ rows, db'.Holds new.userId new.dedupeKey

theorem Holds.mono {userId : UserId} {key : DedupeKey} (h : db.Holds userId key)
    (hkept : ∀ j job, db.jobs.get j = some job → db'.jobs.get j = some job) :
    db'.Holds userId key := by
  obtain ⟨j, job, hjob, hholds⟩ := h
  exact ⟨j, job, hkept j job hjob, hholds⟩

theorem Filed.nil (hbelow : JobsBelow db) (hunique : db.KeysUnique) : Filed now [] db db where
  below := hbelow
  unique := hunique
  kept := fun _ _ h => h
  new := fun _ _ h => .inl h
  holds := fun _ h => nomatch h

/-- A row under the next id, with a key no active job has. -/
theorem Filed.single (hbelow : JobsBelow db) (hunique : db.KeysUnique) :
    Filed now [new] db (db.fileJob now new) := by
  by_cases hholds : db.Holds new.userId new.dedupeKey
  · rw [fileJob_of_holds hholds]
    refine ⟨hbelow, hunique, fun _ _ h => h, fun _ _ h => .inl h, fun n hn => ?_⟩
    rw [List.mem_singleton.mp hn]
    exact hholds
  · have hfresh : db.jobs.get db.nextJob = none := by
      by_contra hsome
      exact absurd (hbelow db.nextJob hsome) (Nat.lt_irrefl _)
    have hget (j : JobId) : (db.fileJob now new).jobs.get j =
        if j = db.nextJob then some (new.row now) else db.jobs.get j := by
      rw [fileJob_of_not_holds hholds]
      exact Table.get_set ..
    refine ⟨jobsBelow_fileJob hbelow new, ?_, ?_, ?_, ?_⟩
    · -- The new row is the only active one under its key.
      intro j j' job job' hjob hjob' huser hkey hactive hactive'
      rw [hget] at hjob hjob'
      split at hjob
      next hj =>
        split at hjob'
        next hj' => rw [hj, hj']
        next =>
          obtain rfl := Option.some.inj hjob
          exact absurd ⟨j', job', hjob', huser.symm, hkey.symm, hactive'⟩ hholds
      next =>
        split at hjob'
        next =>
          obtain rfl := Option.some.inj hjob'
          exact absurd ⟨j, job, hjob, huser, hkey, hactive⟩ hholds
        next => exact hunique j j' job job' hjob hjob' huser hkey hactive hactive'
    · intro j job hjob
      rw [hget, if_neg fun hj => by rw [hj, hfresh] at hjob; cases hjob]
      exact hjob
    · intro j job hjob
      rw [hget] at hjob
      split at hjob
      next hj =>
        obtain rfl := Option.some.inj hjob
        exact .inr ⟨hj ▸ hfresh, new, List.mem_singleton_self _, rfl⟩
      next => exact .inl hjob
    · intro n hn
      rw [List.mem_singleton.mp hn]
      exact ⟨db.nextJob, new.row now, by rw [hget, if_pos rfl], rfl, rfl, rfl⟩

theorem Filed.cons {rest : List NewJob} {db'' : Db} (h : Filed now [new] db db')
    (h' : Filed now rest db' db'') : Filed now (new :: rest) db db'' where
  below := h'.below
  unique := h'.unique
  kept := fun j job hjob => h'.kept j job (h.kept j job hjob)
  new := fun j job hjob => by
    rcases h'.new j job hjob with hold | ⟨hnone, n, hn, hrow⟩
    · rcases h.new j job hold with hold | ⟨hnone, n, hn, hrow⟩
      · exact .inl hold
      · exact .inr ⟨hnone, n, List.mem_cons.mpr (.inl (List.mem_singleton.mp hn)), hrow⟩
    · refine .inr ⟨?_, n, List.mem_cons_of_mem _ hn, hrow⟩
      obtain hnone' | ⟨job', hjob'⟩ := (db.jobs.get j).eq_none_or_eq_some
      · exact hnone'
      · rw [h.kept j job' hjob'] at hnone
        cases hnone
  holds := fun n hn => by
    rcases List.mem_cons.mp hn with rfl | hrest
    · exact (h.holds n (List.mem_singleton_self _)).mono h'.kept
    · exact h'.holds n hrest

theorem filed_fileJobs (hbelow : JobsBelow db) (hunique : db.KeysUnique) (rows : List NewJob) :
    Filed now rows db (db.fileJobs now rows) := by
  unfold fileJobs
  induction rows generalizing db with
  | nil => exact .nil hbelow hunique
  | cons new rest ih =>
    have hfirst : Filed now [new] db (db.fileJob now new) := .single hbelow hunique
    exact hfirst.cons (ih hfirst.below hfirst.unique)

/-- Nothing is filed where every key has its job. -/
theorem fileJobs_eq_self {rows : List NewJob}
    (h : ∀ new ∈ rows, db.Holds new.userId new.dedupeKey) : db.fileJobs now rows = db := by
  unfold fileJobs
  induction rows with
  | nil => rfl
  | cons new rest ih =>
    rw [List.foldl_cons, fileJob_of_holds (h new List.mem_cons_self)]
    exact ih fun n hn => h n (List.mem_cons_of_mem _ hn)

end Db

end TigerDuck.Push
