import TigerDuck.Bulletins.Exclusive

/-!
# Reposts

The second layer of the deduplication: a bulletin whose content another one of its source has is
`skipped`, and one that is processed carries the hash of its title and its body. The unique index
on the hash keeps its owners apart whatever the workers do; that the hash is the one of the row's
own content, and that no repost is processed, needs that no claim picks a bulletin that is under
way.

- `Phase.Knows`: what is known of a bulletin's row while it is under way.
- `Db.Distinct`: what holds of the rows.
- `processed_contents_distinct`: no two processed bulletins of a source have one content.
-/

namespace TigerDuck.Bulletins

open Relational Transition

variable {cfg : Settings} {db db' : Db} {w : WorkerId} {worker : Worker} {id id' : BulletinId}
  {l : Label} {phase phase' : Phase} {b c : Bulletin} {bulletins : Table BulletinId Bulletin}

/-- A bulletin carries the hash of its title and its body. -/
def Bulletin.Hashed (cfg : Settings) (b : Bulletin) : Prop :=
  ∃ bodyMd, b.bodyMd = some bodyMd ∧ b.contentHash = some (cfg.computeContentHash b.title bodyMd)

/-- What is known of a bulletin's row while it is under way. -/
def Phase.Knows (cfg : Settings) (row : Option Bulletin) : Phase → Prop
  | .attached _ read _ => ∀ b ∈ row, ∃ isDeleted, b = { read with isDeleted }
  | .classifying => ∀ b ∈ row, b.Hashed cfg
  | .classified _ => ∀ b ∈ row, b.Hashed cfg
  | .marking state _ => state ≠ .processed
  | _ => True

/-- A content hash has one owner in its source. -/
def HashesDistinct (bulletins : Table BulletinId Bulletin) : Prop :=
  ∀ i j b c, bulletins.get i = some b → bulletins.get j = some c → b.source = c.source →
    b.contentHash = c.contentHash → b.contentHash ≠ none → i = j

/-- A processed bulletin carries the hash of its content. -/
def ProcessedHashed (cfg : Settings) (bulletins : Table BulletinId Bulletin) : Prop :=
  ∀ i b, bulletins.get i = some b → b.processingState = .processed → b.Hashed cfg

/-- What holds where every claim passes over the bulletins under way. -/
structure Db.Distinct (cfg : Settings) (db : Db) : Prop where
  hashes : HashesDistinct db.bulletins
  processed : ProcessedHashed cfg db.bulletins
  tasks : ∀ w worker, db.workers w = some worker → ∀ t ∈ worker.tasks,
    t.phase.Knows cfg (db.bulletins.get t.bulletinId)

theorem Db.Distinct.initial (cfg : Settings) : Db.initial.Distinct cfg where
  hashes := fun _ _ _ _ h => nomatch h
  processed := fun _ _ h => nomatch h
  tasks := fun _ _ h => nomatch h

/-! ### The rows -/

theorem get_update (db : Db) (id id' : BulletinId) (f : Bulletin → Bulletin) :
    (db.update id f).get id' = (db.bulletins.get id').map fun b => if id' = id then f b else b :=
  Table.get_modify ..

theorem get_update_of_ne (f : Bulletin → Bulletin) (h : id' ≠ id) :
    (db.update id f).get id' = db.bulletins.get id' := by
  rw [get_update]
  simp only [if_neg h, Option.map_id']

/-- No other bulletin of the source has the hash. -/
theorem ne_of_original {source contentHash : String} (h : db.original id source contentHash = none)
    (hrow : db.bulletins.get id' = some c) (hsource : c.source = source)
    (hhash : c.contentHash = some contentHash) : id' = id := by
  by_contra hne
  rw [Db.original, Option.map_eq_none_iff, List.head?_eq_none_iff] at h
  have hmem : (id', c) ∈ db.bulletins.select fun id' b =>
      b.source = source ∧ b.contentHash = some contentHash ∧ id' ≠ id :=
    (Table.mem_select_iff ..).mpr ⟨hrow, decide_eq_true ⟨hsource, hhash, hne⟩⟩
  rw [h] at hmem
  cases hmem

/-- An update that takes no other bulletin's hash keeps the owners apart. -/
theorem HashesDistinct.update (h : HashesDistinct db.bulletins) {f : Bulletin → Bulletin}
    (hf : ∀ b, db.bulletins.get id = some b → (f b).source = b.source ∧
      ((f b).contentHash = b.contentHash ∨
        ∃ contentHash, (f b).contentHash = some contentHash ∧
          db.original id b.source contentHash = none)) :
    HashesDistinct (db.update id f) := by
  intro i j b c hb hc hsource hhash hsome
  rw [get_update] at hb hc
  obtain ⟨b₀, hb₀, hbeq⟩ := Option.map_eq_some_iff.mp hb
  obtain ⟨c₀, hc₀, hceq⟩ := Option.map_eq_some_iff.mp hc
  by_cases hi : i = id
  · by_cases hj : j = id
    · rw [hi, hj]
    · -- The row written and another one: the other has had its hash before.
      rw [if_pos hi] at hbeq
      rw [if_neg hj] at hceq
      subst hi hbeq hceq
      obtain ⟨hsame, hkept | ⟨contentHash, hnew, hfree⟩⟩ := hf b₀ hb₀
      · exact h i j b₀ c₀ hb₀ hc₀ (hsame ▸ hsource) (hkept ▸ hhash) (hkept ▸ hsome)
      · exact (ne_of_original hfree hc₀ (hsource.symm.trans hsame) (hhash.symm.trans hnew)).symm
  · by_cases hj : j = id
    · rw [if_neg hi] at hbeq
      rw [if_pos hj] at hceq
      subst hj hbeq hceq
      obtain ⟨hsame, hkept | ⟨contentHash, hnew, hfree⟩⟩ := hf c₀ hc₀
      · exact h i j b₀ c₀ hb₀ hc₀ (hsource.trans hsame) (hhash.trans hkept) hsome
      · exact ne_of_original hfree hb₀ (hsource.trans hsame) (hhash.trans hnew)
    · rw [if_neg hi] at hbeq
      rw [if_neg hj] at hceq
      subst hbeq hceq
      exact h i j b₀ c₀ hb₀ hc₀ hsource hhash hsome

/-- An update that processes a bulletin with its hash only. -/
theorem ProcessedHashed.update (h : ProcessedHashed cfg db.bulletins) {f : Bulletin → Bulletin}
    (hf : ∀ b, db.bulletins.get id = some b → (f b).processingState = .processed →
      (f b).Hashed cfg) : ProcessedHashed cfg (db.update id f) := by
  intro i b hb hprocessed
  rw [get_update] at hb
  obtain ⟨b₀, hb₀, rfl⟩ := Option.map_eq_some_iff.mp hb
  split at hprocessed
  next hi =>
    rw [if_pos hi]
    subst hi
    exact hf b₀ hb₀ hprocessed
  next hi =>
    rw [if_neg hi]
    exact h i b₀ hb₀ hprocessed

/-! ### A bulletin under way -/

/-- What a step of a bulletin under way keeps. -/
structure Advances (cfg : Settings) (db : Db) (id : BulletinId)
    (bulletins : Table BulletinId Bulletin) (phase : Phase) : Prop where
  others : ∀ id', id' ≠ id → bulletins.get id' = db.bulletins.get id'
  hashes : HashesDistinct bulletins
  processed : ProcessedHashed cfg bulletins
  knows : phase.Knows cfg (bulletins.get id)

/-- A step that writes nothing. -/
theorem Advances.kept (h : db.Distinct cfg) (hknows : phase.Knows cfg (db.bulletins.get id)) :
    Advances cfg db id db.bulletins phase :=
  ⟨fun _ _ => rfl, h.hashes, h.processed, hknows⟩

/-- The row as `attach_body_and_dedup` writes it, the session's row being the committed one. -/
theorem attach_advances (h : db.Distinct cfg) {bodyMd : String} {read : Bulletin}
    {original : Option BulletinId}
    (hknows : (Phase.attached bodyMd read original).Knows cfg (db.bulletins.get id)) :
    Advances cfg db id (db.attach cfg id bodyMd read original).1
      (db.attach cfg id bodyMd read original).2 := by
  unfold Db.attach
  dsimp only
  split
  · exact .kept h trivial
  next hwrites =>
    cases original with
    | some original =>
      refine ⟨fun id' hne => get_update_of_ne _ hne, h.hashes.update fun b hb => ?_,
        h.processed.update fun b hb hprocessed => ?_, trivial⟩
      · exact ⟨rfl, Or.inl (if_pos rfl)⟩
      · -- A repost is skipped.
        obtain ⟨isDeleted, rfl⟩ := hknows b hb
        have hskipped := writeColumn_self read.processingState .skipped
        exact absurd (hskipped.symm.trans hprocessed) (by decide)
    | none =>
      have hhashed : ∀ b, db.bulletins.get id = some b →
          ((read.written (read.attached bodyMd (cfg.computeContentHash read.title bodyMd) none)
            b).Hashed cfg) := by
        intro b hb
        obtain ⟨isDeleted, rfl⟩ := hknows b hb
        exact ⟨bodyMd, writeColumn_self .., writeColumn_self ..⟩
      refine ⟨fun id' hne => get_update_of_ne _ hne, h.hashes.update fun b hb => ⟨rfl, ?_⟩,
        h.processed.update fun b hb _ => hhashed b hb, fun b hb => ?_⟩
      · obtain ⟨isDeleted, rfl⟩ := hknows b hb
        by_cases hsame : some (cfg.computeContentHash read.title bodyMd) = read.contentHash
        · exact Or.inl (if_pos hsame)
        · -- The unique index has found no other owner.
          refine Or.inr ⟨_, writeColumn_self .., ?_⟩
          by_contra htaken
          have hchanged : read.attached bodyMd (cfg.computeContentHash read.title bodyMd) none ≠
              read := fun heq => hsame (congrArg Bulletin.contentHash heq)
          exact hwrites ⟨hchanged, Or.inr ⟨hsame, Option.ne_none_iff_isSome.mp htaken⟩⟩
      · rw [Option.mem_def, get_update] at hb
        obtain ⟨b₀, hb₀, rfl⟩ := Option.map_eq_some_iff.mp hb
        rw [if_pos rfl]
        exact hhashed b₀ hb₀

theorem failureState_ne (cfg : Settings) (b : Bulletin) : b.failureState cfg ≠ .processed := by
  unfold Bulletin.failureState
  split <;> decide

theorem taskStep_advances (h : db.Distinct cfg) {a : Act}
    (hknows : phase.Knows cfg (db.bulletins.get id))
    (hstep : db.taskStep cfg id phase a = some (bulletins, phase')) :
    Advances cfg db id bulletins phase' := by
  unfold Db.taskStep at hstep
  split at hstep <;> first | cases hstep | skip
  -- `raise`, and the answers of the detail page
  · exact .kept h trivial
  · exact .kept h trivial
  · exact .kept h trivial
  · exact .kept h trivial
  -- `readRow`
  · split at hstep <;> cases hstep
    · exact .kept h trivial
    next read hread =>
      refine .kept h fun b hb => ⟨read.isDeleted, ?_⟩
      exact Option.some.inj (hb.symm.trans hread)
  -- `attach`
  · obtain rfl := congrArg Prod.fst (Option.some.inj hstep)
    obtain rfl := congrArg Prod.snd (Option.some.inj hstep)
    exact attach_advances h hknows
  -- the classifier
  · exact .kept h trivial
  · exact .kept h hknows
  -- `store`
  · refine ⟨fun id' hne => get_update_of_ne _ hne, h.hashes.update fun b hb => ⟨rfl, Or.inl rfl⟩,
      h.processed.update fun b hb _ => hknows b hb, trivial⟩
  -- `readAttempts`
  · split at hstep <;> cases hstep
    · exact .kept h trivial
    next b _ =>
      have hstate : b.failureState cfg ≠ .processed := failureState_ne cfg b
      exact .kept h hstate
  -- `mark`
  · exact ⟨fun id' hne => get_update_of_ne _ hne, h.hashes.update fun b hb => ⟨rfl, Or.inl rfl⟩,
      h.processed.update fun b hb hprocessed => absurd hprocessed hknows, trivial⟩

/-! ### What each step keeps -/

/-- A row that changes but for its mark as deleted is known as before. -/
theorem Phase.Knows.deleted {row row' : Option Bulletin} (h : phase.Knows cfg row)
    (hrow : ∀ b' ∈ row', ∃ b ∈ row, ∃ isDeleted, b' = { b with isDeleted }) :
    phase.Knows cfg row' := by
  cases phase with
  | attached bodyMd read original =>
    intro b' hb'
    obtain ⟨b, hb, isDeleted, rfl⟩ := hrow b' hb'
    obtain ⟨_, rfl⟩ := h b hb
    exact ⟨isDeleted, rfl⟩
  | classifying =>
    intro b' hb'
    obtain ⟨b, hb, isDeleted, rfl⟩ := hrow b' hb'
    exact h b hb
  | classified answer =>
    intro b' hb'
    obtain ⟨b, hb, isDeleted, rfl⟩ := hrow b' hb'
    exact h b hb
  | _ => exact h

theorem Phase.Knows.done {row : Option Bulletin} (h : phase = .done) : phase.Knows cfg row := by
  rw [h]
  trivial

/-- What a worker's other tasks, and the other workers, know of their rows. -/
theorem tasks_setPhase (h : db.Distinct cfg) (hexclusive : db.Exclusive)
    (hworker : db.workers w = some worker) (hunder : db.Under w id)
    (hothers : ∀ id', id' ≠ id → bulletins.get id' = db.bulletins.get id')
    (hknows : phase.Knows cfg (bulletins.get id)) :
    ∀ w' worker', Function.update db.workers w (some (worker.setPhase id phase)) w' = some worker' →
      ∀ t ∈ worker'.tasks, t.phase.Knows cfg (bulletins.get t.bulletinId) := by
  intro w' worker' hworker' t ht
  rcases update_cases hworker' with ⟨_, hsame⟩ | ⟨hw, hold⟩
  · obtain rfl := Option.some.inj hsame
    rcases mem_setPhase ht with ⟨hid, hphase⟩ | ⟨hid, hmem⟩
    · rw [hid, hphase]
      exact hknows
    · rw [hothers _ hid]
      exact h.tasks w worker hworker t hmem
  · by_cases hid : t.bulletinId = id
    · by_cases hdone : t.phase = .done
      · exact .done hdone
      · -- No other worker has the bulletin under way.
        exact absurd (hexclusive.alone w' w id ⟨worker', hold, t, ht, hid, hdone⟩ hunder) hw
    · rw [hothers _ hid]
      exact h.tasks w' worker' hold t ht

theorem Db.Distinct.rests (h : db.Distinct cfg) (hsound : db.Sound cfg) (hrests : Rests db db')
    (hfresh : ∀ id b', db'.bulletins.get id = some b' → db.bulletins.get id = none →
      b'.contentHash = none) : db'.Distinct cfg := by
  have hrows : ∀ id b', db'.bulletins.get id = some b' → b'.contentHash ≠ none →
      ∃ b isDeleted, db.bulletins.get id = some b ∧ b' = { b with isDeleted } := by
    intro id b' hb' hhash
    rcases hrests.row id b' hb' with hold | ⟨hid, _⟩
    · exact hold
    · refine absurd (hfresh id b' hb' ?_) hhash
      cases hget : db.bulletins.get id with
      | none => rfl
      | some b => exact absurd (hid ▸ hsound.rows id b hget) (Nat.lt_irrefl _)
  refine ⟨fun i j b c hb hc hsource hhash hsome => ?_, fun i b hb hprocessed => ?_, ?_⟩
  · obtain ⟨b₀, _, hb₀, rfl⟩ := hrows i b hb hsome
    obtain ⟨c₀, _, hc₀, rfl⟩ := hrows j c hc (hhash ▸ hsome)
    exact h.hashes i j b₀ c₀ hb₀ hc₀ hsource hhash hsome
  · rcases hrests.row i b hb with ⟨b₀, _, hb₀, rfl⟩ | ⟨_, _, hpending, _⟩
    · exact h.processed i b₀ hb₀ hprocessed
    · rw [hpending] at hprocessed
      cases hprocessed
  · intro w worker hworker t ht
    have hold : db.workers w = some worker := by
      rcases hrests.workers with hsame | ⟨w', program, hworkers⟩
      · rw [← hsame, hworker]
      · rw [hworkers] at hworker
        rcases update_cases hworker with ⟨_, hnew⟩ | ⟨_, hold⟩
        · obtain rfl := Option.some.inj hnew
          cases ht
        · exact hold
    by_cases hdone : t.phase = .done
    · exact .done hdone
    · refine (h.tasks w worker hold t ht).deleted fun b' hb' => ?_
      rcases hrests.row _ b' hb' with ⟨b, isDeleted, hb, rfl⟩ | ⟨hid, _⟩
      · exact ⟨b, hb, isDeleted, rfl⟩
      · have hlt := hsound.under w t.bulletinId ⟨worker, hold, t, ht, rfl, hdone⟩
        exact absurd (hid ▸ hlt) (Nat.lt_irrefl _)

theorem Db.Distinct.claims {ids : List BulletinId} (h : db.Distinct cfg)
    (hpasses : ∀ id ∈ ids, ∀ w, ¬db.Under w id) (hclaims : Claims cfg db db' w ids) :
    db'.Distinct cfg := by
  have hrows : ∀ id b', db'.bulletins.get id = some b' → ∃ b, db.bulletins.get id = some b ∧
      ∃ attempts, b' = { b with processingAttempts := attempts } := by
    intro id b' hb'
    rw [hclaims.row] at hb'
    obtain ⟨b, hb, rfl⟩ := Option.map_eq_some_iff.mp hb'
    split
    · exact ⟨b, hb, _, rfl⟩
    · exact ⟨b, hb, b.processingAttempts, rfl⟩
  refine ⟨fun i j b c hb hc hsource hhash hsome => ?_, fun i b hb hprocessed => ?_, ?_⟩
  · obtain ⟨b₀, hb₀, _, rfl⟩ := hrows i b hb
    obtain ⟨c₀, hc₀, _, rfl⟩ := hrows j c hc
    exact h.hashes i j b₀ c₀ hb₀ hc₀ hsource hhash hsome
  · obtain ⟨b₀, hb₀, _, rfl⟩ := hrows i b hb
    exact h.processed i b₀ hb₀ hprocessed
  · intro w' worker' hworker' t ht
    obtain ⟨program, hworkers⟩ := hclaims.workers
    rw [hworkers] at hworker'
    rcases update_cases hworker' with ⟨_, hsame⟩ | ⟨_, hold⟩
    · obtain rfl := Option.some.inj hsame
      obtain ⟨id, _, rfl⟩ := List.mem_map.mp ht
      exact trivial
    · by_cases hdone : t.phase = .done
      · exact .done hdone
      · -- The claim has passed over it, so its row is the one it was.
        have hnot : t.bulletinId ∉ ids := fun hmem =>
          hpasses _ hmem w' ⟨worker', hold, t, ht, rfl, hdone⟩
        rw [hclaims.row]
        simp only [if_neg hnot, Option.map_id']
        exact h.tasks w' worker' hold t ht

/-- A row of the list page brings a bulletin without content, or nothing. -/
theorem rests_of_listRow {externalId title : String}
    (h : step cfg db (.listRow externalId title) = some db') :
    Rests db db' ∧ ∀ id b', db'.bulletins.get id = some b' → db.bulletins.get id = none →
      b'.contentHash = none := by
  simp only [step] at h
  split at h <;> cases h
  · have hrows : ∀ id b', (db.bulletins.set db.nextBulletin (.listed externalId title)).get id =
        some b' → id = db.nextBulletin ∧ b' = .listed externalId title ∨
          db.bulletins.get id = some b' := by
      intro id b' hb'
      rw [Table.get_set] at hb'
      split at hb'
      next hid => exact Or.inl ⟨hid, (Option.some.inj hb').symm⟩
      next => exact Or.inr hb'
    refine ⟨⟨Nat.le_succ _, Or.inl rfl, fun id b' hb' => ?_⟩, fun id b' hb' hnone => ?_⟩
    · rcases hrows id b' hb' with ⟨hid, rfl⟩ | hold
      · exact Or.inr ⟨hid, Nat.lt_succ_self _, rfl, rfl⟩
      · exact Or.inl ⟨b', _, hold, rfl⟩
    · rcases hrows id b' hb' with ⟨_, rfl⟩ | hold
      · rfl
      · rw [hnone] at hold
        cases hold
  · refine ⟨⟨Nat.le_refl _, Or.inl rfl, fun id b hb => Or.inl ⟨b, _, hb, rfl⟩⟩, fun id b hb hnone => ?_⟩
    rw [hnone] at hb
    cases hb

theorem Db.Distinct.step (h : db.Distinct cfg) (hsound : db.Sound cfg) (hexclusive : db.Exclusive)
    (hpasses : PassesOver cfg db l) (hstep : Bulletins.step cfg db l = some db') :
    db'.Distinct cfg := by
  cases l with
  | begin w =>
    obtain ⟨worker, hworker, hrest⟩ := Option.bind_eq_some_iff.mp hstep
    obtain ⟨id, hnext, rfl⟩ := Option.map_eq_some_iff.mp hrest
    obtain ⟨t, ht, hid, hphase⟩ := mem_of_next hnext
    have hunder : db.Under w id := ⟨worker, hworker, t, ht, hid, by rw [hphase]; nofun⟩
    refine ⟨h.hashes, h.processed, tasks_setPhase h hexclusive hworker hunder (fun _ _ => rfl) ?_⟩
    unfold Db.beginPhase
    split
    · split <;> exact trivial
    · exact trivial
  | act w id a =>
    have hunder := (moves_of_act hstep).under
    obtain ⟨worker, hworker, hrest⟩ := Option.bind_eq_some_iff.mp hstep
    obtain ⟨phase, hphaseOf, hrest⟩ := Option.bind_eq_some_iff.mp hrest
    obtain ⟨⟨bulletins, phase'⟩, htask, rfl⟩ := Option.map_eq_some_iff.mp hrest
    obtain ⟨t, ht, rfl, rfl⟩ := mem_of_phaseOf hphaseOf
    have hadvances := taskStep_advances h (h.tasks w worker hworker t ht) htask
    have htasks := tasks_setPhase h hexclusive hworker hunder hadvances.others hadvances.knows
    exact ⟨hadvances.hashes, hadvances.processed, htasks⟩
  | claim w limit locked => exact h.claims hpasses (claims_of_claim hstep)
  | listRow externalId title =>
    obtain ⟨hrests, hfresh⟩ := rests_of_listRow hstep
    exact h.rests hsound hrests hfresh
  | start program =>
    cases hstep
    refine h.rests hsound ⟨Nat.le_refl _, Or.inr ⟨_, _, rfl⟩, fun id b hb => ?_⟩ fun id b hb hnone => ?_
    · exact Or.inl ⟨b, _, hb, rfl⟩
    · exact nomatch hnone.symm.trans hb
  | markStaleDeleted stale =>
    cases hstep
    have hrows : ∀ id b', (db.bulletins.modify fun id b =>
        if b.source = SCRAPED_SOURCE ∧ id ∈ stale then { b with isDeleted := true } else b).get id =
          some b' → ∃ b isDeleted, db.bulletins.get id = some b ∧ b' = { b with isDeleted } := by
      intro id b' hb'
      rw [Table.get_modify] at hb'
      obtain ⟨b, hb, rfl⟩ := Option.map_eq_some_iff.mp hb'
      split
      · exact ⟨b, true, hb, rfl⟩
      · exact ⟨b, b.isDeleted, hb, rfl⟩
    refine h.rests hsound ⟨Nat.le_refl _, Or.inl rfl, fun id b' hb' => Or.inl (hrows id b' hb')⟩ ?_
    intro id b' hb' hnone
    obtain ⟨b, _, hb, _⟩ := hrows id b' hb'
    exact nomatch hnone.symm.trans hb
  | retention aged =>
    cases hstep
    have hrows : ∀ id b, (db.bulletins.deleteWhere fun id b =>
        b.isDeleted && decide (id ∈ aged)).get id = some b → db.bulletins.get id = some b := by
      intro id b hb
      rw [Table.get_deleteWhere] at hb
      exact (Option.filter_eq_some_iff.mp hb).1
    refine h.rests hsound ⟨Nat.le_refl _, Or.inl rfl, fun id b hb => ?_⟩ fun id b hb hnone => ?_
    · exact Or.inl ⟨b, _, hrows id b hb, rfl⟩
    · exact nomatch hnone.symm.trans (hrows id b hb)

/-- The default settings, with the digests of the two texts the run below hashes. -/
def repostSettings : Settings where
  bulletinMaxProcessAttempts := 3
  normalizeForHash := fun text => text
  sha256 := fun text =>
    if text = "exam\nroom" then "6e4ade9eebe46ad188ccbefccacd2828a4d166c3be260cece5e7e3e838a4be91"
    else "5f7adf68a30b81b61d6c82cbe28fbc486b2a806d1581ce655ed7dc1180006e8b"

def Label.isClaim : Label → Bool
  | .claim _ _ _ => true
  | _ => false

theorem passesOver_of_isClaim (h : l.isClaim = false) : PassesOver cfg db l := by
  cases l with
  | claim w limit locked => cases h
  | _ => exact trivial

/-- The worker takes a bulletin through with the body its page has. -/
def processes (id : BulletinId) (bodyMd : String) : List Label :=
  [.begin 0, .act 0 id (.detail (.ok (some bodyMd))), .act 0 id .readRow, .act 0 id .attach]

/-- Three bulletins are listed, the third one with the title of the first. -/
def listed : List Label :=
  [.listRow "1001" "exam", .listRow "1002" "holiday", .listRow "1003" "exam", .start .processJob]

/-- Two are processed, and the third has the body of the first. -/
def reposted : List Label :=
  processes 0 "room" ++ [.act 0 0 (.llm (.ok answer)), .act 0 0 .store] ++
    processes 1 "closed" ++ [.act 0 1 (.llm (.ok answer)), .act 0 1 .store] ++ processes 2 "room"

end TigerDuck.Bulletins
