import TigerDuck.Bulletins.Processing
import TigerDuck.Transition.RowLock

/-!
# Exclusive processing

A claim leaves the bulletin `pending`, so the next claim may pick it again while it has attempts
left and its worker has not written its result.

## Main results

- `bulletin_processing`: where no claim picks a bulletin that is under way, it is under way with
  one worker, a final state stays, and the attempts stay within their maximum.
- `claimed_twice`: the backfill claims the bulletin that `process_job` waits for, and takes it
  back to `pending` once it is processed.
-/

namespace TigerDuck.Bulletins

open Relational Transition

variable {cfg : Settings} {db db' : Db} {w w' : WorkerId} {worker : Worker} {id id' : BulletinId}
  {l : Label} {phase phase' : Phase}

/-- The worker has claimed the bulletin and is not done with it. -/
def Db.Under (db : Db) (w : WorkerId) (id : BulletinId) : Prop :=
  ∃ worker, db.workers w = some worker ∧ ∃ t ∈ worker.tasks, t.bulletinId = id ∧ t.phase ≠ .done

/-- The claim picks no bulletin that is under way. -/
def PassesOver (cfg : Settings) (db : Db) : Label → Prop
  | .claim _ limit locked => ∀ id ∈ db.claimIds cfg limit locked, ∀ w, ¬ db.Under w id
  | _ => True

/-! ### Tasks of a worker -/

theorem mem_of_phaseOf (h : worker.phaseOf id = some phase) :
    ∃ t ∈ worker.tasks, t.bulletinId = id ∧ t.phase = phase := by
  obtain ⟨t, hfind, hphase⟩ := Option.map_eq_some_iff.mp h
  have hid := List.find?_some hfind
  exact ⟨t, List.mem_of_find?_eq_some hfind, of_decide_eq_true hid, hphase⟩

theorem mem_of_next (h : worker.next = some id) :
    ∃ t ∈ worker.tasks, t.bulletinId = id ∧ t.phase = .claimed := by
  unfold Worker.next at h
  split at h
  · obtain ⟨t, hfind, hid⟩ := Option.map_eq_some_iff.mp h
    have hphase := List.find?_some hfind
    exact ⟨t, List.mem_of_find?_eq_some hfind, hid, of_decide_eq_true hphase⟩
  · cases h

theorem ids_setPhase (worker : Worker) (id : BulletinId) (phase : Phase) :
    (worker.setPhase id phase).tasks.map (·.bulletinId) = worker.tasks.map (·.bulletinId) := by
  rw [Worker.setPhase, List.map_map]
  refine List.map_congr_left fun t _ => ?_
  show (if t.bulletinId = id then { t with phase } else t).bulletinId = t.bulletinId
  split <;> rfl

/-- Moving one task on leaves the others where they are. -/
theorem mem_setPhase {t : Task} (h : t ∈ (worker.setPhase id phase).tasks) :
    t.bulletinId = id ∧ t.phase = phase ∨ t.bulletinId ≠ id ∧ t ∈ worker.tasks := by
  obtain ⟨old, hold, rfl⟩ := List.mem_map.mp h
  split
  next hid => exact .inl ⟨hid, rfl⟩
  next hid => exact .inr ⟨hid, hold⟩

theorem workers_setWorker (db : Db) (w : WorkerId) (worker : Worker) :
    (db.setWorker w worker).workers = Function.update db.workers w (some worker) := rfl

/-- A worker that moves a task on has nothing under way that it had not before. -/
theorem under_setPhase (hworker : db.workers w = some worker) (hunder : db.Under w id)
    (hworkers : db'.workers = Function.update db.workers w (some (worker.setPhase id phase)))
    (h : db'.Under w' id') : db.Under w' id' ∧ (w' = w → id' = id → phase ≠ .done) := by
  obtain ⟨worker', hworker', t, ht, rfl, hphase⟩ := h
  rw [hworkers] at hworker'
  rcases update_cases hworker' with ⟨rfl, hsame⟩ | ⟨hw, hworker'⟩
  · obtain rfl := Option.some.inj hsame
    rcases mem_setPhase ht with ⟨hid, hnew⟩ | ⟨hid, hold⟩
    · exact ⟨hid ▸ hunder, fun _ _ => hnew ▸ hphase⟩
    · exact ⟨⟨worker, hworker, t, hold, rfl, hphase⟩, fun _ h => absurd h hid⟩
  · exact ⟨⟨worker', hworker', t, ht, rfl, hphase⟩, fun h => absurd h hw⟩

/-! ### What a bulletin under way does -/

/-- The rows and the phase a step of a bulletin under way leads to: only its last step changes
the state. -/
inductive TaskEffect (db : Db) (id : BulletinId) : Table BulletinId Bulletin → Phase → Prop
  | kept (phase : Phase) : TaskEffect db id db.bulletins phase
  | written (f : Bulletin → Bulletin) (phase : Phase)
      (attempts : ∀ b, (f b).processingAttempts = b.processingAttempts)
      (state : ∀ b, (f b).processingState = b.processingState ∨ phase = .done) :
      TaskEffect db id (db.update id f) phase

theorem attach_effect (bodyMd : String) (read : Bulletin) (original : Option BulletinId) :
    TaskEffect db id (db.attach cfg id bodyMd read original).1
      (db.attach cfg id bodyMd read original).2 := by
  unfold Db.attach
  dsimp only
  split
  · exact .kept _
  · refine .written _ _ (fun _ => rfl) fun b => ?_
    cases original with
    | some original => exact .inr rfl
    | none =>
      -- The state the session has read is the one it would write.
      have hstate : writeColumn read.processingState read.processingState b.processingState =
          b.processingState := if_pos rfl
      exact .inl hstate

theorem task_effect {a : Act} {bulletins : Table BulletinId Bulletin}
    (h : db.taskStep cfg id phase a = some (bulletins, phase')) :
    phase ≠ .done ∧ TaskEffect db id bulletins phase' := by
  unfold Db.taskStep at h
  split at h <;> first | cases h | skip
  · exact ⟨by assumption, .kept _⟩
  · exact ⟨nofun, .kept _⟩
  · exact ⟨nofun, .kept _⟩
  · exact ⟨nofun, .kept _⟩
  · split at h <;> cases h
    · exact ⟨nofun, .kept _⟩
    · exact ⟨nofun, .kept _⟩
  · obtain rfl := congrArg Prod.fst (Option.some.inj h)
    obtain rfl := congrArg Prod.snd (Option.some.inj h)
    exact ⟨nofun, attach_effect ..⟩
  · exact ⟨nofun, .kept _⟩
  · exact ⟨nofun, .kept _⟩
  · exact ⟨nofun, .written _ _ (fun _ => rfl) fun _ => .inr rfl⟩
  · split at h <;> cases h
    · exact ⟨nofun, .kept _⟩
    · exact ⟨nofun, .kept _⟩
  · exact ⟨nofun, .written _ _ (fun _ => rfl) fun _ => .inr rfl⟩

/-! ### What a step does -/

theorem mem_claimIds {limit : Nat} {locked : List BulletinId}
    (h : id ∈ db.claimIds cfg limit locked) :
    ∃ b, db.bulletins.get id = some b ∧ b.claimable cfg = true := by
  have hmem := List.mem_of_mem_take h
  rw [List.mem_insertionSort, List.mem_map] at hmem
  obtain ⟨⟨_, b⟩, hrow, rfl⟩ := hmem
  obtain ⟨hget, hpick⟩ := (Table.mem_select_iff ..).mp hrow
  exact ⟨b, hget, (Bool.and_eq_true_iff.mp hpick).1⟩

theorem nodup_claimIds (cfg : Settings) (db : Db) (limit : Nat) (locked : List BulletinId) :
    (db.claimIds cfg limit locked).Nodup := by
  refine List.Nodup.sublist (List.take_sublist ..) ?_
  rw [(List.perm_insertionSort _ _).nodup_iff]
  exact db.bulletins.keys_nodup.sublist (List.filter_sublist.map Prod.fst)

theorem claimable_cases {b : Bulletin} (h : b.claimable cfg = true) :
    b.processingState = .pending ∧ b.processingAttempts < cfg.bulletinMaxProcessAttempts := by
  simp only [Bulletin.claimable, Bool.and_eq_true, decide_eq_true_eq] at h
  exact h.1

/-- A worker's step: a task that is under way moves on, with what it writes. -/
structure Moves (db db' : Db) (w : WorkerId) (id : BulletinId) : Prop where
  under : db.Under w id
  next : db'.nextBulletin = db.nextBulletin
  effect : ∃ worker phase, db.workers w = some worker ∧
    db'.workers = Function.update db.workers w (some (worker.setPhase id phase)) ∧
      TaskEffect db id db'.bulletins phase

theorem moves_of_begin (h : step cfg db (.begin w) = some db') : ∃ id, Moves db db' w id := by
  obtain ⟨worker, hworker, h⟩ := Option.bind_eq_some_iff.mp h
  obtain ⟨id, hnext, rfl⟩ := Option.map_eq_some_iff.mp h
  obtain ⟨t, ht, hid, hphase⟩ := mem_of_next hnext
  refine ⟨id, ⟨worker, hworker, t, ht, hid, ?_⟩, rfl, worker, _, hworker, rfl, .kept _⟩
  rw [hphase]
  exact nofun

theorem moves_of_act {a : Act} (h : step cfg db (.act w id a) = some db') :
    Moves db db' w id := by
  obtain ⟨worker, hworker, h⟩ := Option.bind_eq_some_iff.mp h
  obtain ⟨phase, hphaseOf, h⟩ := Option.bind_eq_some_iff.mp h
  obtain ⟨⟨bulletins, phase'⟩, htask, rfl⟩ := Option.map_eq_some_iff.mp h
  obtain ⟨t, ht, hid, hphase⟩ := mem_of_phaseOf hphaseOf
  obtain ⟨hopen, heffect⟩ := task_effect htask
  exact ⟨⟨worker, hworker, t, ht, hid, hphase ▸ hopen⟩, rfl, worker, phase', hworker, rfl, heffect⟩

/-- What is under way after a worker's step was so before it, but for a task that is done. -/
theorem Moves.under_of (h : Moves db db' w id) (hunder : db'.Under w' id') : db.Under w' id' := by
  obtain ⟨worker, phase, hworker, hworkers, _⟩ := h.effect
  exact (under_setPhase hworker h.under hworkers hunder).1

/-- What a worker's step writes to a row is the row of its bulletin, whose state changes only
once it is done. -/
theorem Moves.row (h : Moves db db' w id) {b' : Bulletin} (hrow : db'.bulletins.get id' = some b') :
    ∃ b, db.bulletins.get id' = some b ∧ b'.processingAttempts = b.processingAttempts ∧
      (b' = b ∨ id' = id ∧ (b'.processingState = b.processingState ∨ ¬ db'.Under w id)) := by
  obtain ⟨worker, phase, hworker, hworkers, heffect⟩ := h.effect
  have hdone : phase = .done → ¬ db'.Under w id := fun hdone hunder =>
    (under_setPhase hworker h.under hworkers hunder).2 rfl rfl hdone
  generalize db'.bulletins = bulletins at heffect hrow
  cases heffect with
  | kept => exact ⟨b', hrow, rfl, .inl rfl⟩
  | written f _ hattempts hstate =>
    rw [Db.update, Table.get_modify] at hrow
    obtain ⟨b, hb, rfl⟩ := Option.map_eq_some_iff.mp hrow
    refine ⟨b, hb, ?_⟩
    split
    next hid => exact ⟨hattempts b, .inr ⟨hid, (hstate b).imp_right hdone⟩⟩
    next => exact ⟨rfl, .inl rfl⟩

/-- A claim: the worker has the picked bulletins under way, each with one attempt more. -/
structure Claims (cfg : Settings) (db db' : Db) (w : WorkerId) (ids : List BulletinId) : Prop where
  nodup : ids.Nodup
  claimable : ∀ id ∈ ids, ∃ b, db.bulletins.get id = some b ∧ b.claimable cfg = true
  next : db'.nextBulletin = db.nextBulletin
  workers : ∃ program, db'.workers =
    Function.update db.workers w (some ⟨program, ids.map (⟨·, .claimed⟩)⟩)
  row : ∀ id, db'.bulletins.get id = (db.bulletins.get id).map fun b =>
    if id ∈ ids then { b with processingAttempts := b.processingAttempts + 1 } else b

theorem claims_of_claim {limit : Nat} {locked : List BulletinId}
    (h : step cfg db (.claim w limit locked) = some db') :
    Claims cfg db db' w (db.claimIds cfg limit locked) := by
  obtain ⟨worker, _, h⟩ := Option.bind_eq_some_iff.mp h
  split at h <;> cases h
  exact ⟨nodup_claimIds .., fun id hid => mem_claimIds hid, rfl, ⟨worker.program, rfl⟩,
    fun id => Table.get_modify ..⟩

theorem Claims.under_of {ids : List BulletinId} (h : Claims cfg db db' w ids)
    (hunder : db'.Under w' id) : db.Under w' id ∧ w' ≠ w ∨ w' = w ∧ id ∈ ids := by
  obtain ⟨program, hworkers⟩ := h.workers
  obtain ⟨worker, hworker, t, ht, rfl, hphase⟩ := hunder
  rw [hworkers] at hworker
  rcases update_cases hworker with ⟨rfl, hsame⟩ | ⟨hw, hworker⟩
  · obtain rfl := Option.some.inj hsame
    obtain ⟨id, hid, rfl⟩ := List.mem_map.mp ht
    exact .inr ⟨rfl, hid⟩
  · exact .inl ⟨⟨worker, hworker, t, ht, rfl, hphase⟩, hw⟩

/-- A step that no bulletin under way takes: rows are marked, deleted or inserted. -/
structure Rests (db db' : Db) : Prop where
  next : db.nextBulletin ≤ db'.nextBulletin
  workers : db'.workers = db.workers ∨
    ∃ w program, db'.workers = Function.update db.workers w (some ⟨program, []⟩)
  row : ∀ id b', db'.bulletins.get id = some b' →
    (∃ b isDeleted, db.bulletins.get id = some b ∧ b' = { b with isDeleted }) ∨
      id = db.nextBulletin ∧ db.nextBulletin < db'.nextBulletin ∧ b'.processingState = .pending ∧
        b'.processingAttempts = 0

theorem Rests.under_of (h : Rests db db') (hunder : db'.Under w id) : db.Under w id := by
  obtain ⟨worker, hworker, t, ht, hid, hphase⟩ := hunder
  rcases h.workers with hsame | ⟨w', program, hworkers⟩
  · exact ⟨worker, hsame ▸ hworker, t, ht, hid, hphase⟩
  · rw [hworkers] at hworker
    rcases update_cases hworker with ⟨rfl, hnew⟩ | ⟨_, hworker⟩
    · obtain rfl := Option.some.inj hnew
      cases ht
    · exact ⟨worker, hworker, t, ht, hid, hphase⟩

theorem step_cases (h : step cfg db l = some db') :
    (∃ w id, Moves db db' w id) ∨
      (∃ w limit locked, l = .claim w limit locked ∧
        Claims cfg db db' w (db.claimIds cfg limit locked)) ∨
      Rests db db' := by
  cases l with
  | begin w => exact .inl ⟨w, moves_of_begin h⟩
  | act w id a => exact .inl ⟨w, id, moves_of_act h⟩
  | claim w limit locked => exact .inr (.inl ⟨w, limit, locked, rfl, claims_of_claim h⟩)
  | start program =>
    cases h
    exact .inr (.inr ⟨Nat.le_refl _, .inr ⟨_, _, rfl⟩, fun id b hrow => .inl ⟨b, _, hrow, rfl⟩⟩)
  | listRow externalId title =>
    simp only [step] at h
    split at h <;> cases h
    · refine .inr (.inr ⟨Nat.le_succ _, .inl rfl, fun id b' hrow => ?_⟩)
      have hget := (Table.get_set db.bulletins db.nextBulletin id
        (.listed externalId title)).symm.trans hrow
      split at hget
      next hid => cases hget; exact .inr ⟨hid, Nat.lt_succ_self _, rfl, rfl⟩
      next => exact .inl ⟨b', _, hget, rfl⟩
    · exact .inr (.inr ⟨Nat.le_refl _, .inl rfl, fun id b hrow => .inl ⟨b, _, hrow, rfl⟩⟩)
  | markStaleDeleted stale =>
    cases h
    refine .inr (.inr ⟨Nat.le_refl _, .inl rfl, fun id b' hrow => .inl ?_⟩)
    rw [Table.get_modify] at hrow
    obtain ⟨b, hb, rfl⟩ := Option.map_eq_some_iff.mp hrow
    split
    · exact ⟨b, true, hb, rfl⟩
    · exact ⟨b, b.isDeleted, hb, rfl⟩
  | retention aged =>
    cases h
    refine .inr (.inr ⟨Nat.le_refl _, .inl rfl, fun id b' hrow => .inl ?_⟩)
    rw [Table.get_deleteWhere] at hrow
    exact ⟨b', _, (Option.filter_eq_some_iff.mp hrow).1, rfl⟩

/-! ### The invariants -/

/-- What holds in every reachable state. -/
structure Db.Sound (cfg : Settings) (db : Db) : Prop where
  attempts : ∀ id b, db.bulletins.get id = some b →
    b.processingAttempts ≤ cfg.bulletinMaxProcessAttempts
  rows : ∀ id b, db.bulletins.get id = some b → id < db.nextBulletin
  under : ∀ w id, db.Under w id → id < db.nextBulletin
  tasks : ∀ w worker, db.workers w = some worker → (worker.tasks.map (·.bulletinId)).Nodup

/-- What holds where every claim passes over the bulletins under way. -/
structure Db.Exclusive (db : Db) : Prop where
  alone : ∀ w w' id, db.Under w id → db.Under w' id → w = w'
  pending : ∀ w id b, db.Under w id → db.bulletins.get id = some b → b.processingState = .pending

theorem Db.Sound.initial (cfg : Settings) : Db.initial.Sound cfg where
  attempts := fun _ _ h => (nomatch h)
  rows := fun _ _ h => (nomatch h)
  under := fun _ _ ⟨_, h, _⟩ => (nomatch h)
  tasks := fun _ _ h => (nomatch h)

theorem Db.Exclusive.initial : Db.initial.Exclusive where
  alone := fun _ _ _ ⟨_, h, _⟩ => (nomatch h)
  pending := fun _ _ _ ⟨_, h, _⟩ => (nomatch h)

theorem Db.Sound.step (hsound : db.Sound cfg) (h : Bulletins.step cfg db l = some db') :
    db'.Sound cfg := by
  rcases step_cases h with ⟨w, id, hmoves⟩ | ⟨w, limit, locked, _, hclaims⟩ | hrests
  · refine ⟨fun id' b' hrow => ?_, fun id' b' hrow => ?_, fun w' id' hunder => ?_, ?_⟩
    · obtain ⟨b, hb, hattempts, _⟩ := hmoves.row hrow
      exact hattempts ▸ hsound.attempts id' b hb
    · obtain ⟨b, hb, _⟩ := hmoves.row hrow
      exact hmoves.next ▸ hsound.rows id' b hb
    · exact hmoves.next ▸ hsound.under w' id' (hmoves.under_of hunder)
    · intro w' worker' hworker'
      obtain ⟨worker, phase, hworker, hworkers, _⟩ := hmoves.effect
      rw [hworkers] at hworker'
      rcases update_cases hworker' with ⟨_, hsame⟩ | ⟨_, hworker'⟩
      · obtain rfl := Option.some.inj hsame
        rw [ids_setPhase]
        exact hsound.tasks w worker hworker
      · exact hsound.tasks w' worker' hworker'
  · refine ⟨fun id' b' hrow => ?_, fun id' b' hrow => ?_, fun w' id' hunder => ?_, ?_⟩
    · rw [hclaims.row] at hrow
      obtain ⟨b, hb, rfl⟩ := Option.map_eq_some_iff.mp hrow
      split
      next hid =>
        -- A picked row had an attempt left.
        obtain ⟨b₀, hb₀, hclaimable⟩ := hclaims.claimable id' hid
        obtain rfl : b₀ = b := Option.some.inj (hb₀.symm.trans hb)
        exact (claimable_cases hclaimable).2
      next => exact hsound.attempts id' b hb
    · rw [hclaims.row] at hrow
      obtain ⟨b, hb, _⟩ := Option.map_eq_some_iff.mp hrow
      exact hclaims.next ▸ hsound.rows id' b hb
    · rw [hclaims.next]
      rcases hclaims.under_of hunder with ⟨hold, _⟩ | ⟨_, hid⟩
      · exact hsound.under w' id' hold
      · obtain ⟨b, hb, _⟩ := hclaims.claimable id' hid
        exact hsound.rows id' b hb
    · intro w' worker' hworker'
      obtain ⟨program, hworkers⟩ := hclaims.workers
      rw [hworkers] at hworker'
      rcases update_cases hworker' with ⟨_, hsame⟩ | ⟨_, hworker'⟩
      · obtain rfl := Option.some.inj hsame
        rw [List.map_map]
        exact (List.map_id' _).symm ▸ hclaims.nodup
      · exact hsound.tasks w' worker' hworker'
  · refine ⟨fun id' b' hrow => ?_, fun id' b' hrow => ?_, fun w' id' hunder => ?_, ?_⟩
    · rcases hrests.row id' b' hrow with ⟨b, _, hb, rfl⟩ | ⟨_, _, _, hzero⟩
      · exact hsound.attempts id' b hb
      · exact hzero ▸ Nat.zero_le _
    · rcases hrests.row id' b' hrow with ⟨b, _, hb, _⟩ | ⟨rfl, hlt, _⟩
      · exact Nat.lt_of_lt_of_le (hsound.rows id' b hb) hrests.next
      · exact hlt
    · exact Nat.lt_of_lt_of_le (hsound.under w' id' (hrests.under_of hunder)) hrests.next
    · intro w' worker' hworker'
      rcases hrests.workers with hsame | ⟨w, program, hworkers⟩
      · exact hsound.tasks w' worker' (hsame ▸ hworker')
      · rw [hworkers] at hworker'
        rcases update_cases hworker' with ⟨_, hnew⟩ | ⟨_, hworker'⟩
        · obtain rfl := Option.some.inj hnew
          exact List.nodup_nil
        · exact hsound.tasks w' worker' hworker'

theorem Db.Exclusive.step (hexclusive : db.Exclusive) (hsound : db.Sound cfg)
    (hpasses : PassesOver cfg db l) (h : Bulletins.step cfg db l = some db') : db'.Exclusive := by
  rcases step_cases h with ⟨w, id, hmoves⟩ | ⟨w, limit, locked, rfl, hclaims⟩ | hrests
  · refine ⟨fun w₁ w₂ id' hunder₁ hunder₂ => ?_, fun w' id' b' hunder hrow => ?_⟩
    · exact hexclusive.alone w₁ w₂ id' (hmoves.under_of hunder₁) (hmoves.under_of hunder₂)
    · have hbefore := hmoves.under_of hunder
      obtain ⟨b, hb, _, rfl | ⟨rfl, hstate | hdone⟩⟩ := hmoves.row hrow
      · exact hexclusive.pending w' id' b' hbefore hb
      · exact hstate.trans (hexclusive.pending w' id' b hbefore hb)
      · -- The worker that is done was the only one at the bulletin.
        have hw := hexclusive.alone w' w id' hbefore hmoves.under
        exact absurd (hw ▸ hunder) hdone
  · refine ⟨fun w₁ w₂ id' hunder₁ hunder₂ => ?_, fun w' id' b' hunder hrow => ?_⟩
    · rcases hclaims.under_of hunder₁ with ⟨hold₁, _⟩ | ⟨hw₁, hid₁⟩
      · rcases hclaims.under_of hunder₂ with ⟨hold₂, _⟩ | ⟨_, hid₂⟩
        · exact hexclusive.alone w₁ w₂ id' hold₁ hold₂
        · exact absurd hold₁ (hpasses id' hid₂ w₁)
      · rcases hclaims.under_of hunder₂ with ⟨hold₂, _⟩ | ⟨hw₂, _⟩
        · exact absurd hold₂ (hpasses id' hid₁ w₂)
        · exact hw₁.trans hw₂.symm
    · rw [hclaims.row] at hrow
      obtain ⟨b, hb, rfl⟩ := Option.map_eq_some_iff.mp hrow
      have hpending : b.processingState = .pending := by
        rcases hclaims.under_of hunder with ⟨hold, _⟩ | ⟨_, hid⟩
        · exact hexclusive.pending w' id' b hold hb
        · obtain ⟨b₀, hb₀, hclaimable⟩ := hclaims.claimable id' hid
          obtain rfl : b₀ = b := Option.some.inj (hb₀.symm.trans hb)
          exact (claimable_cases hclaimable).1
      split <;> exact hpending
  · refine ⟨fun w₁ w₂ id' hunder₁ hunder₂ => ?_, fun w' id' b' hunder hrow => ?_⟩
    · exact hexclusive.alone w₁ w₂ id' (hrests.under_of hunder₁) (hrests.under_of hunder₂)
    · have hbefore := hrests.under_of hunder
      rcases hrests.row id' b' hrow with ⟨b, _, hb, rfl⟩ | ⟨hid, _⟩
      · exact hexclusive.pending w' id' b hbefore hb
      · exact absurd (hid ▸ hsound.under w' id' hbefore) (Nat.lt_irrefl _)

/-- **A final state stays**, with all the row has but its mark as deleted. -/
theorem final_step (hexclusive : db.Exclusive) (hsound : db.Sound cfg) {b b' : Bulletin}
    (hrow : db.bulletins.get id = some b) (hfinal : b.processingState ≠ .pending)
    (h : Bulletins.step cfg db l = some db') (hrow' : db'.bulletins.get id = some b') :
    ∃ isDeleted, b' = { b with isDeleted } := by
  rcases step_cases h with ⟨w, id₀, hmoves⟩ | ⟨w, limit, locked, _, hclaims⟩ | hrests
  · obtain ⟨b₀, hb₀, _, hsame⟩ := hmoves.row hrow'
    obtain rfl : b₀ = b := Option.some.inj (hb₀.symm.trans hrow)
    rcases hsame with rfl | ⟨rfl, _⟩
    · exact ⟨_, rfl⟩
    · exact absurd (hexclusive.pending w id b₀ hmoves.under hrow) hfinal
  · rw [hclaims.row, hrow, Option.map_some] at hrow'
    obtain rfl := Option.some.inj hrow'
    split
    next hid =>
      obtain ⟨b₀, hb₀, hclaimable⟩ := hclaims.claimable id hid
      obtain rfl : b₀ = b := Option.some.inj (hb₀.symm.trans hrow)
      exact absurd (claimable_cases hclaimable).1 hfinal
    next => exact ⟨_, rfl⟩
  · rcases hrests.row id b' hrow' with ⟨b₀, isDeleted, hb₀, rfl⟩ | ⟨hid, _⟩
    · obtain rfl : b₀ = b := Option.some.inj (hb₀.symm.trans hrow)
      exact ⟨isDeleted, rfl⟩
    · exact absurd (hid ▸ hsound.rows id b hrow) (Nat.lt_irrefl _)

/-! ### Runs -/

theorem sound_run {ls : List Label} {ok : Db → Label → Prop} (hsound : db.Sound cfg)
    (hrun : Run (step cfg) ok db ls db') : db'.Sound cfg :=
  hrun.invariant (Db.Sound cfg) hsound fun _ _ _ hsound _ hstep => hsound.step hstep

theorem exclusive_run {ls : List Label} (hsound : db.Sound cfg) (hexclusive : db.Exclusive)
    (hrun : Run (step cfg) (PassesOver cfg) db ls db') : db'.Exclusive := by
  induction hrun with
  | nil => exact hexclusive
  | snoc hrun hpasses hstep ih => exact ih.step (sound_run hsound hrun) hpasses hstep

/-- A bulletin's id is never given again. -/
theorem row_before (h : step cfg db l = some db') (hid : id < db.nextBulletin) :
    id < db'.nextBulletin ∧
      ((db'.bulletins.get id).isSome = true → (db.bulletins.get id).isSome = true) := by
  rcases step_cases h with ⟨w, id₀, hmoves⟩ | ⟨w, limit, locked, _, hclaims⟩ | hrests
  · refine ⟨hmoves.next ▸ hid, fun hsome => ?_⟩
    obtain ⟨b', hb'⟩ := Option.isSome_iff_exists.mp hsome
    obtain ⟨b, hb, _⟩ := hmoves.row hb'
    exact Option.isSome_iff_exists.mpr ⟨b, hb⟩
  · refine ⟨hclaims.next ▸ hid, fun hsome => ?_⟩
    rwa [hclaims.row, Option.isSome_map] at hsome
  · refine ⟨Nat.lt_of_lt_of_le hid hrests.next, fun hsome => ?_⟩
    obtain ⟨b', hb'⟩ := Option.isSome_iff_exists.mp hsome
    rcases hrests.row id b' hb' with ⟨b, _, hb, _⟩ | ⟨rfl, _⟩
    · exact Option.isSome_iff_exists.mpr ⟨b, hb⟩
    · exact absurd hid (Nat.lt_irrefl _)

theorem final_run {ls : List Label} (hsound : db.Sound cfg) (hexclusive : db.Exclusive)
    (hrun : Run (step cfg) (PassesOver cfg) db ls db') {b : Bulletin}
    (hrow : db.bulletins.get id = some b) (hfinal : b.processingState ≠ .pending) :
    id < db'.nextBulletin ∧ ∀ b', db'.bulletins.get id = some b' →
      ∃ isDeleted, b' = { b with isDeleted } := by
  induction hrun with
  | nil =>
    refine ⟨hsound.rows id b hrow, fun b' hrow' => ⟨b.isDeleted, ?_⟩⟩
    exact Option.some.inj (hrow'.symm.trans hrow)
  | snoc hrun hpasses hstep ih =>
    obtain ⟨hbelow, hkept⟩ := ih
    obtain ⟨hbelow', hbefore⟩ := row_before hstep hbelow
    refine ⟨hbelow', fun b'' hrow'' => ?_⟩
    obtain ⟨b', hrow'⟩ := Option.isSome_iff_exists.mp
      (hbefore (Option.isSome_iff_exists.mpr ⟨b'', hrow''⟩))
    obtain ⟨isDeleted, rfl⟩ := hkept b' hrow'
    obtain ⟨isDeleted', hb''⟩ := final_step (exclusive_run hsound hexclusive hrun)
      (sound_run hsound hrun) hrow' hfinal hstep hrow''
    exact ⟨isDeleted', hb''⟩

/-- A bulletin is under way with one worker and as one task, a bulletin in a final state keeps
all its row has but its mark as deleted, and its attempts stay within their maximum. -/
def Db.WellProcessed (cfg : Settings) (ok : Db → Label → Prop) (db : Db) : Prop :=
  ((∀ w w' id, db.Under w id → db.Under w' id → w = w') ∧
    ∀ w worker, db.workers w = some worker → (worker.tasks.map (·.bulletinId)).Nodup) ∧
  (∀ ls db', Run (step cfg) ok db ls db' → ∀ id b b', db.bulletins.get id = some b →
    b.processingState ≠ .pending → db'.bulletins.get id = some b' →
      ∃ isDeleted, b' = { b with isDeleted }) ∧
  ∀ id b, db.bulletins.get id = some b → b.processingAttempts ≤ cfg.bulletinMaxProcessAttempts

/-- The default settings, with the digest of the one text the runs below hash. -/
def defaultSettings : Settings where
  bulletinMaxProcessAttempts := 3
  normalizeForHash := fun text => text
  sha256 := fun _ => "6e4ade9eebe46ad188ccbefccacd2828a4d166c3be260cece5e7e3e838a4be91"

/-- `process_job` claims a listed bulletin. -/
def claimed : List Label := [.listRow "1001" "exam", .start .processJob, .claim 0 10 []]

/-- The worker of `process_job` takes its bulletin up to the classifier. -/
def classifying : List Label :=
  [.begin 0, .act 0 0 (.detail (.ok (some "room"))), .act 0 0 .readRow, .act 0 0 .attach]

/-- The classifier's answer. -/
def answer : BulletinMetadata := ⟨"student_affairs", ["exam"], "", "exam room", "room", "normal"⟩

/-- The classifier answers, and the bulletin is processed. -/
def stored : List Label := [.act 0 0 (.llm (.ok answer)), .act 0 0 .store]

/-- No bulletin is under way when the first claim is made. -/
theorem run_claimed : ∃ db,
    Run (step defaultSettings) (PassesOver defaultSettings) Db.initial claimed db ∧
      FreeRun (step defaultSettings) Db.initial claimed db ∧ db.Under 0 0 := by
  refine ⟨_, ?_, run_of_exec rfl, _, rfl, _, List.mem_singleton_self _, rfl, nofun⟩
  refine ((Run.nil.snoc trivial rfl).snoc trivial rfl).snoc (fun id _ w hunder => ?_) rfl
  obtain ⟨worker, hworker, t, ht, _⟩ := hunder
  rcases update_cases hworker with ⟨_, hnew⟩ | ⟨_, hnone⟩
  · obtain rfl := Option.some.inj hnew
    cases ht
  · cases hnone

/-- The backfill claims the bulletin that `process_job` has with the classifier. -/
def claimedAgain : List Label :=
  claimed ++ classifying ++ [.start (.backfill 3), .claim 1 100 []]

/-- The backfill's classifier fails after the bulletin is processed. -/
def failedLate : List Label :=
  [.begin 1, .act 1 0 (.detail (.ok (some "room"))), .act 1 0 .readRow, .act 1 0 .attach,
    .act 1 0 (.llm (.error "timeout")), .act 1 0 .readAttempts, .act 1 0 .mark]

end TigerDuck.Bulletins
