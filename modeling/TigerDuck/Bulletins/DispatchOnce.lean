import TigerDuck.Bulletins.UserDispatch

/-!
# At most one job for each match

Whatever order the ticks run in, and wherever they fail, each match is pushed once. A tick alone
files matches of a bulletin it has locked, and stamps matches it has locked or filed; so what it
has written is still to be written when it commits, and a job is filed of a match no other has
been filed of.

- `Kept`: what the others leave to a tick.
- `TickInv`, `DispatchInv`: what holds of a tick, and of the database.
- `dispatch_exact`: the jobs, the devices they are aimed at, and the bulletins that fail.
-/

namespace TigerDuck.Bulletins.UserDispatch

open Push (JobId)
open Relational Transition
open Subscriptions (RowId Subscription UserId)

variable {cfg : Settings} {labels : List Label} {db db' : Db} {t : TickId} {k : Tick} {l : Label}

/-! ### What holds of a tick -/

/-- A value has its row, or its user's account has been deleted. -/
def Present (db : Db) (k : Tick) (id : BulletinId) (userId : UserId) : Prop :=
  (k.userMatches.get (id, userId)).isSome = true ∨
    (db.userMatches.get (id, userId)).isSome = true ∨ db.deregistered userId = true

/-- Nothing is written for a bulletin. -/
def Untouched (k : Tick) (id : BulletinId) : Prop :=
  id ∉ k.runs ∧ ∀ u, k.userMatches.get (id, u) = none

/-- The matching of a bulletin is over: it failed and wrote nothing, or it wrote its rows. -/
def Settled (db : Db) (k : Tick) (r : BulletinId × Bulletin) : Prop :=
  (r.1 ∈ k.failed ∧ Untouched k r.1) ∨
    (r.1 ∉ k.failed ∧ r.1 ∈ k.runs ∧
      ∀ v ∈ matchValues (k.rules.getD []) r.2, Present db k r.1 v.userId)

/-- The matching of a bulletin has not begun. -/
def Waiting (k : Tick) (id : BulletinId) : Prop := Untouched k id ∧ id ∉ k.failed

/-- A match is the tick's to stamp. -/
def Held (db : Db) (t : TickId) (k : Tick) (key : MatchKey) (m : Match) : Prop :=
  k.userMatches.get key = some m ∨
    (db.matchLocks key = some t ∧ db.userMatches.get key = some m ∧ m.pushedAt = none)

/-- Pass B has written nothing yet. -/
def Unpushed (k : Tick) : Prop := k.stamps = [] ∧ k.filings = []

/-- The tick has written nothing yet. -/
def Clean (k : Tick) : Prop :=
  k.rules = none ∧ (k.runs = [] ∧ k.failed = [] ∧ ∀ key, k.userMatches.get key = none) ∧ Unpushed k

/-- What a filing files. -/
structure Filing.Sound (f : Filing) : Prop where
  userId : f.job.userId = f.key.2
  dedupeKey : f.job.dedupeKey = .bulletin f.key.1
  payload : ∃ p, f.job.payload = some p ∧ p.targetDeviceIds = f.matched.deviceIds

/-- What holds where a tick stands. -/
def Stage (db : Db) (t : TickId) (k : Tick) : Phase → Prop
  | .start => k.bulletins = [] ∧ Clean k
  | .locking candidates => (k.bulletins.map Prod.fst ++ candidates).Nodup ∧ Clean k
  | .locked => (k.bulletins.map Prod.fst).Nodup ∧ Clean k
  | .matching todo => ∃ done, k.bulletins = done ++ todo ∧ (k.bulletins.map Prod.fst).Nodup ∧
      (∀ r ∈ done, Settled db k r) ∧ (∀ r ∈ todo, Waiting k r.1) ∧ Unpushed k
  | .filing r values todo => ∃ done, k.bulletins = done ++ r :: todo ∧
      (k.bulletins.map Prod.fst).Nodup ∧ (∀ r ∈ done, Settled db k r) ∧
      (∀ r ∈ todo, Waiting k r.1) ∧ (r.1 ∉ k.runs ∧ r.1 ∉ k.failed) ∧
      (∃ filed, matchValues (k.rules.getD []) r.2 = filed ++ values ∧
        ∀ v ∈ filed, Present db k r.1 v.userId) ∧ Unpushed k
  | .lockingMatches todo held => (∀ r ∈ k.bulletins, Settled db k r) ∧
      (held.map Prod.fst ++ todo.map Prod.fst).Nodup ∧
      (∀ h ∈ held, Held db t k h.1 h.2.1) ∧ Unpushed k
  | .pushing held => (∀ r ∈ k.bulletins, Settled db k r) ∧
      (k.stamps.map Prod.fst ++ held.map Prod.fst).Nodup ∧
      (∀ h ∈ held, Held db t k h.1 h.2.1) ∧
      (∀ s ∈ k.stamps, ∃ m, Held db t k s.1 m) ∧
      (∀ f ∈ k.filings, f.key ∈ k.stamps.map Prod.fst ∧ Held db t k f.key f.matched ∧ f.Sound) ∧
      (k.filings.map Filing.key).Nodup

/-- A match is filed by the tick that has read these rules. -/
def FiledFrom (id : BulletinId) (userId : UserId) (m : Match) (db : Db) (l : Label) : Prop :=
  l = .readRules m.filedBy ∧ ∃ bulletin deviceIds, db.bulletins.get id = some bulletin ∧
    m.deviceIds = some deviceIds ∧ Named db bulletin userId deviceIds

/-- A match is filed at some reading of the rules. -/
abbrev WasFiled (cfg : Settings) (labels : List Label) (id : BulletinId) (userId : UserId)
    (m : Match) : Prop :=
  Ever (step cfg) (FiledFrom id userId m) Db.initial labels

/-- A row the tick has inserted: one of the values of a bulletin it has locked. -/
def Own (t : TickId) (k : Tick) (id : BulletinId) (userId : UserId) (m : Match) : Prop :=
  ∃ r ∈ k.bulletins, r.1 = id ∧
    ∃ v ∈ matchValues (k.rules.getD []) r.2, v.userId = userId ∧ m = v.row t k.now

/-- What holds of a tick under way. -/
structure TickInv (cfg : Settings) (labels : List Label) (db : Db) (t : TickId) (k : Tick) :
    Prop where
  below : t < db.nextTick
  /-- The bulletins of pass A are locked, and as they were read. -/
  locked : ∀ r ∈ k.bulletins, db.bulletinLocks r.1 = some t ∧ db.bulletins.get r.1 = some r.2
  /-- The tick's own matches are of those bulletins, and nobody else has filed one. -/
  own : ∀ id u m, k.userMatches.get (id, u) = some m →
    Own t k id u m ∧ db.userMatches.get (id, u) = none ∧ db.deregistered u = false
  /-- The rules are those of one moment, at which the bulletins were as they are. -/
  read : ∀ rules, k.rules = some rules → Ever (step cfg) (fun before l =>
    l = .readRules t ∧ before.enabledRules = rules ∧
      ∀ r ∈ k.bulletins, before.bulletins.get r.1 = some r.2) Db.initial labels
  failed : ∀ id ∈ k.failed, id ∈ k.bulletins.map Prod.fst
  stage : Stage db t k k.phase

/-! ### What the others leave to a tick -/

/-- What a step of others leaves as it is for a tick. -/
structure Kept (t : TickId) (k : Tick) (db db' : Db) : Prop where
  nextTick : db.nextTick ≤ db'.nextTick
  locked : ∀ id, db.bulletinLocks id = some t →
    db'.bulletinLocks id = some t ∧ db'.bulletins.get id = db.bulletins.get id
  absent : ∀ id u, db.bulletinLocks id = some t → db.userMatches.get (id, u) = none →
    db'.userMatches.get (id, u) = none
  filed : ∀ id u, db.bulletinLocks id = some t → (db.userMatches.get (id, u)).isSome = true →
    (db'.userMatches.get (id, u)).isSome = true ∨ db'.deregistered u = true
  held : ∀ key, db.matchLocks key = some t →
    db'.matchLocks key = some t ∧ db'.userMatches.get key = db.userMatches.get key
  gone : ∀ u, db.deregistered u = true → db'.deregistered u = true
  alive : ∀ key m, k.userMatches.get key = some m → db.deregistered key.2 = false →
    db'.deregistered key.2 = false

namespace Kept

variable {id : BulletinId} {u : UserId} {key : MatchKey} {m : Match}

theorem present (hk : Kept t k db db') (hlock : db.bulletinLocks id = some t)
    (h : Present db k id u) : Present db' k id u := by
  rcases h with hown | hsome | hgone
  · exact Or.inl hown
  · exact Or.inr (hk.filed id u hlock hsome)
  · exact Or.inr (Or.inr (hk.gone u hgone))

theorem settled (hk : Kept t k db db') {r : BulletinId × Bulletin}
    (hlock : db.bulletinLocks r.1 = some t) (h : Settled db k r) : Settled db' k r :=
  h.imp_right fun ⟨hfailed, hruns, hall⟩ =>
    ⟨hfailed, hruns, fun v hv => hk.present hlock (hall v hv)⟩

theorem isHeld (hk : Kept t k db db') (h : Held db t k key m) : Held db' t k key m := by
  refine h.imp_right fun ⟨hlock, hrow, hpending⟩ => ?_
  obtain ⟨hlock', hsame⟩ := hk.held key hlock
  exact ⟨hlock', hsame.trans hrow, hpending⟩

theorem stage (hk : Kept t k db db') (hlocked : ∀ r ∈ k.bulletins, db.bulletinLocks r.1 = some t)
    {phase : Phase} (h : Stage db t k phase) : Stage db' t k phase := by
  have hsettled : ∀ r ∈ k.bulletins, Settled db k r → Settled db' k r := fun r hr =>
    hk.settled (hlocked r hr)
  cases phase with
  | start | locking | locked => exact h
  | matching todo =>
    obtain ⟨done, hsplit, hnodup, hdone, htodo, hunpushed⟩ := h
    refine ⟨done, hsplit, hnodup, fun r hr => hsettled r ?_ (hdone r hr), htodo, hunpushed⟩
    rw [hsplit]
    exact List.mem_append_left _ hr
  | filing r values todo =>
    obtain ⟨done, hsplit, hnodup, hdone, htodo, hnow, ⟨filed, hvalues, hfiled⟩, hunpushed⟩ := h
    refine ⟨done, hsplit, hnodup, fun r' hr => hsettled r' ?_ (hdone r' hr), htodo, hnow,
      ⟨filed, hvalues, fun v hv => hk.present (hlocked r ?_) (hfiled v hv)⟩, hunpushed⟩
    · rw [hsplit]
      exact List.mem_append_left _ hr
    · rw [hsplit]
      simp
  | lockingMatches todo held =>
    obtain ⟨hall, hnodup, hheld, hunpushed⟩ := h
    exact ⟨fun r hr => hsettled r hr (hall r hr), hnodup, fun x hx => hk.isHeld (hheld x hx),
      hunpushed⟩
  | pushing held =>
    obtain ⟨hall, hnodup, hheld, hstamps, hfilings, honce⟩ := h
    refine ⟨fun r hr => hsettled r hr (hall r hr), hnodup, fun x hx => hk.isHeld (hheld x hx),
      fun x hx => ?_, fun f hf => ?_, honce⟩
    · obtain ⟨m, hm⟩ := hstamps x hx
      exact ⟨m, hk.isHeld hm⟩
    · obtain ⟨hkey, hm, hsound⟩ := hfilings f hf
      exact ⟨hkey, hk.isHeld hm, hsound⟩

/-- What holds of a tick still does after a step of others. -/
theorem tickInv (hk : Kept t k db db') (h : TickInv cfg labels db t k) :
    TickInv cfg labels db' t k where
  below := h.below.trans_le hk.nextTick
  locked r hr := by
    obtain ⟨hlock, hrow⟩ := h.locked r hr
    obtain ⟨hlock', hsame⟩ := hk.locked r.1 hlock
    exact ⟨hlock', hsame.trans hrow⟩
  own id u m hm := by
    obtain ⟨hown, hnone, hlive⟩ := h.own id u m hm
    have hlocked : db.bulletinLocks id = some t := by
      obtain ⟨r, hr, rfl, -⟩ := hown
      exact (h.locked r hr).1
    exact ⟨hown, hk.absent id u hlocked hnone, hk.alive (id, u) m hm hlive⟩
  read := h.read
  failed := h.failed
  stage := hk.stage (fun r hr => (h.locked r hr).1) h.stage

end Kept

theorem TickInv.snoc (h : TickInv cfg labels db t k) (l : Label) :
    TickInv cfg (labels ++ [l]) db t k where
  below := h.below
  locked := h.locked
  own := h.own
  read rules hrules := (h.read rules hrules).snoc l
  failed := h.failed
  stage := h.stage

/-! ### What a tick's own statements keep -/

/-- A tick's records of a bulletin stay as they are. -/
structure SameFor (k k' : Tick) (id : BulletinId) : Prop where
  rules : k'.rules = k.rules
  runs : id ∈ k'.runs ↔ id ∈ k.runs
  failed : id ∈ k'.failed ↔ id ∈ k.failed
  userMatches : ∀ u, k'.userMatches.get (id, u) = k.userMatches.get (id, u)

namespace SameFor

variable {k' : Tick} {id : BulletinId}

theorem untouched (hs : SameFor k k' id) (h : Untouched k id) : Untouched k' id :=
  ⟨fun hmem => h.1 (hs.runs.mp hmem), fun u => (hs.userMatches u).trans (h.2 u)⟩

theorem waiting (hs : SameFor k k' id) (h : Waiting k id) : Waiting k' id :=
  ⟨hs.untouched h.1, fun hmem => h.2 (hs.failed.mp hmem)⟩

theorem present {u : UserId} (hs : SameFor k k' id) (h : Present db k id u) :
    Present db k' id u := by
  rwa [Present, hs.userMatches u]

theorem settled {r : BulletinId × Bulletin} (hs : SameFor k k' r.1) (h : Settled db k r) :
    Settled db k' r := by
  rcases h with ⟨hfailed, huntouched⟩ | ⟨hfailed, hruns, hall⟩
  · exact Or.inl ⟨hs.failed.mpr hfailed, hs.untouched huntouched⟩
  · refine Or.inr ⟨fun hmem => hfailed (hs.failed.mp hmem), hs.runs.mpr hruns, fun v hv => ?_⟩
    rw [hs.rules] at hv
    exact hs.present (hall v hv)

end SameFor

namespace TickInv

/-- A statement that only moves the tick on. -/
theorem advance (h : TickInv cfg labels db t k) {k' : Tick} (hbulletins : k'.bulletins = k.bulletins)
    (hnow : k'.now = k.now) (hrules : k'.rules = k.rules)
    (hmatches : k'.userMatches = k.userMatches) (hfailed : k'.failed = k.failed) (hstage : Stage db t k' k'.phase) : TickInv cfg labels db t k' where
  below := h.below
  locked r hr := h.locked r (hbulletins ▸ hr)
  own id u m hm := by
    rw [Own, hbulletins, hrules, hnow]
    exact h.own id u m (hmatches ▸ hm)
  read rules hr := by
    rw [hbulletins]
    exact h.read rules (hrules ▸ hr)
  failed id hid := by
    rw [hbulletins]
    exact h.failed id (hfailed ▸ hid)
  stage := hstage

/-- The rules a tick has read aim a bulletin at the devices of the match it files. -/
theorem wasFiled (h : TickInv cfg labels db t k) {id : BulletinId} {u : UserId} {m : Match}
    (hm : Own t k id u m) : WasFiled cfg labels id u m := by
  obtain ⟨r, hr, rfl, v, hv, rfl, rfl⟩ := hm
  cases hrules : k.rules with
  | none =>
    rw [hrules] at hv
    simp [matchValues] at hv
  | some rules =>
    rw [hrules] at hv
    refine (h.read rules hrules).imp fun before l hbefore => ?_
    obtain ⟨hl, hread, hrows⟩ := hbefore
    refine ⟨hl, r.2, v.deviceIds, hrows r hr, rfl, ?_⟩
    rw [Option.getD_some, ← hread] at hv
    exact deviceIds_exact hv

theorem stage_of (h : TickInv cfg labels db t k) {phase : Phase} (hphase : k.phase = phase) :
    Stage db t k phase := hphase ▸ h.stage

theorem look (h : TickInv cfg labels db t k) (hphase : k.phase = .start) :
    TickInv cfg labels db t { k with phase := .locking (db.candidates k.now) } := by
  obtain ⟨hnil, hclean⟩ := h.stage_of hphase
  refine h.advance rfl rfl rfl rfl rfl ⟨?_, hclean⟩
  show (k.bulletins.map Prod.fst ++ db.candidates k.now).Nodup
  rw [hnil, List.map_nil, List.nil_append, Db.candidates,
    (List.perm_insertionSort _ _).nodup_iff]
  exact db.bulletins.select_keys_nodup _

theorem lockEnd (h : TickInv cfg labels db t k) {todo : List BulletinId}
    (hphase : k.phase = .locking todo) :
    TickInv cfg labels db t { k with phase := .locked } := by
  obtain ⟨hnodup, hclean⟩ := h.stage_of hphase
  exact h.advance rfl rfl rfl rfl rfl ⟨(List.nodup_append.mp hnodup).1, hclean⟩

theorem lockSkip (h : TickInv cfg labels db t k) {id : BulletinId} {rest : List BulletinId}
    (hphase : k.phase = .locking (id :: rest)) :
    TickInv cfg labels db t { k with phase := .locking rest } := by
  obtain ⟨hnodup, hclean⟩ := h.stage_of hphase
  have hsub : (k.bulletins.map Prod.fst ++ rest).Sublist (k.bulletins.map Prod.fst ++ id :: rest) :=
    (List.sublist_cons_self id rest).append_left _
  exact h.advance rfl rfl rfl rfl rfl ⟨hnodup.sublist hsub, hclean⟩

/-- The bulletin that is locked is as it has just been read. -/
theorem lock (h : TickInv cfg labels db t k) {id : BulletinId} {rest : List BulletinId}
    {row : Bulletin} (hphase : k.phase = .locking (id :: rest))
    (hlock : db.bulletinLocks id = some t) (hrow : db.bulletins.get id = some row) :
    TickInv cfg labels db t
      { k with bulletins := k.bulletins ++ [(id, row)], phase := .locking rest } := by
  obtain ⟨hnodup, hclean⟩ := h.stage_of hphase
  have hrules' := hclean.1
  have hmatches := hclean.2.1.2.2
  refine ⟨h.below, ?_, ?_, ?_, ?_, ?_⟩
  · intro r hr
    rcases List.mem_append.mp hr with hr | hr
    · exact h.locked r hr
    · rw [List.mem_singleton.mp hr]
      exact ⟨hlock, hrow⟩
  · intro id' u m hm
    cases (hmatches (id', u)).symm.trans hm
  · intro rules hrules
    cases hrules'.symm.trans hrules
  · intro id' hid
    rw [List.map_append]
    exact List.mem_append_left _ (h.failed id' hid)
  · refine ⟨?_, hclean⟩
    rwa [List.map_append, List.append_assoc]

theorem readNone (h : TickInv cfg labels db t k) (hphase : k.phase = .locked)
    (hnone : k.bulletins = []) : TickInv cfg labels db t { k with phase := .matching [] } := by
  obtain ⟨hnodup, hclean⟩ := h.stage_of hphase
  refine h.advance rfl rfl rfl rfl rfl ⟨[], hnone, hnodup, ?_, ?_, hclean.2.2⟩
  · intro r hr
    cases hr
  · intro r hr
    cases hr

/-- The rules are read at one moment. -/
theorem readRules (h : TickInv cfg labels db t k) (hphase : k.phase = .locked)
    (hexec : exec (step cfg) Db.initial labels = some db) :
    TickInv cfg (labels ++ [.readRules t]) db t
      { k with rules := some db.enabledRules, phase := .matching k.bulletins } := by
  obtain ⟨hnodup, -, ⟨hruns, hfailed, hmatches⟩, hunpushed⟩ := h.stage_of hphase
  refine ⟨h.below, h.locked, ?_, ?_, h.failed, [], rfl, hnodup, ?_, ?_, hunpushed⟩
  · intro id u m hm
    cases (hmatches (id, u)).symm.trans hm
  · intro rules hrules
    exact Ever.last hexec ⟨rfl, Option.some.inj hrules, fun r hr => (h.locked r hr).2⟩
  · intro r hr
    cases hr
  · intro r _
    refine ⟨⟨?_, fun u => hmatches _⟩, ?_⟩
    · show r.1 ∉ k.runs
      rw [hruns]
      exact List.not_mem_nil
    · show r.1 ∉ k.failed
      rw [hfailed]
      exact List.not_mem_nil

theorem savepoint (h : TickInv cfg labels db t k) {r : BulletinId × Bulletin}
    {todo : List (BulletinId × Bulletin)} (hphase : k.phase = .matching (r :: todo)) :
    TickInv cfg labels db t
      { k with phase := .filing r (matchValues (k.rules.getD []) r.2) todo } := by
  obtain ⟨done, hsplit, hnodup, hdone, htodo, hunpushed⟩ := h.stage_of hphase
  obtain ⟨⟨hruns, _⟩, hfailed⟩ := htodo r List.mem_cons_self
  exact h.advance rfl rfl rfl rfl rfl ⟨done, hsplit, hnodup, hdone,
    fun r' hr' => htodo r' (List.mem_cons_of_mem r hr'), ⟨hruns, hfailed⟩,
    ⟨[], rfl, fun v hv => by cases hv⟩, hunpushed⟩

/-- The bulletins of a tick beside the one it is at. -/
theorem ne_of_nodup {r r' : BulletinId × Bulletin} {done todo : List (BulletinId × Bulletin)}
    (hnodup : ((done ++ r :: todo).map Prod.fst).Nodup) (hr' : r' ∈ done ∨ r' ∈ todo) :
    r'.1 ≠ r.1 := by
  rw [List.map_append, List.map_cons, List.nodup_middle, List.nodup_cons, ← List.map_append]
    at hnodup
  intro heq
  refine hnodup.1 (heq ▸ List.mem_map_of_mem ?_)
  exact List.mem_append.mpr hr'

theorem insertNothing (h : TickInv cfg labels db t k) {r : BulletinId × Bulletin} {v : MatchValue}
    {values : List MatchValue} {todo : List (BulletinId × Bulletin)}
    (hphase : k.phase = .filing r (v :: values) todo)
    (hsome : (db.userMatches.get (r.1, v.userId)).isSome = true) :
    TickInv cfg labels db t { k with phase := .filing r values todo } := by
  obtain ⟨done, hsplit, hnodup, hdone, htodo, hnow, ⟨filed, hvalues, hfiled⟩, hunpushed⟩ :=
    h.stage_of hphase
  refine h.advance rfl rfl rfl rfl rfl ⟨done, hsplit, hnodup, hdone, htodo, hnow,
    ⟨filed ++ [v], by rw [List.append_assoc]; exact hvalues, fun v' hv' => ?_⟩, hunpushed⟩
  rcases List.mem_append.mp hv' with hv' | hv'
  · exact hfiled v' hv'
  · rw [List.mem_singleton.mp hv']
    exact Or.inr (Or.inl hsome)

theorem insertMatch (h : TickInv cfg labels db t k) {r : BulletinId × Bulletin} {v : MatchValue}
    {values : List MatchValue} {todo : List (BulletinId × Bulletin)}
    (hphase : k.phase = .filing r (v :: values) todo) (hlive : db.deregistered v.userId = false)
    (hnone : db.userMatches.get (r.1, v.userId) = none) :
    TickInv cfg labels db t
      { k with
        userMatches := k.userMatches.upsert (r.1, v.userId) (v.row t k.now) id
        phase := .filing r values todo } := by
  obtain ⟨done, hsplit, hnodup, hdone, htodo, hnow, ⟨filed, hvalues, hfiled⟩, hunpushed⟩ :=
    h.stage_of hphase
  have hmem : r ∈ k.bulletins := by
    rw [hsplit]
    simp
  have hsame : ∀ r' ∈ k.bulletins, r'.1 ≠ r.1 → SameFor k
      { k with
        userMatches := k.userMatches.upsert (r.1, v.userId) (v.row t k.now) id
        phase := .filing r values todo } r'.1 := fun r' _ hne =>
    ⟨rfl, Iff.rfl, Iff.rfl, fun u => Table.get_upsert_of_ne _ _ _ fun heq =>
      hne (Prod.mk.inj heq).1⟩
  rw [hsplit] at hnodup
  refine ⟨h.below, h.locked, ?_, h.read, h.failed, done, hsplit, hsplit ▸ hnodup, ?_, ?_, hnow,
    ⟨filed ++ [v], by rw [List.append_assoc]; exact hvalues, fun v' hv' => ?_⟩, hunpushed⟩
  · intro id u m hm
    rw [Table.get_upsert] at hm
    split at hm
    next hkey =>
      obtain ⟨rfl, rfl⟩ := Prod.mk.inj hkey
      cases hown : k.userMatches.get (r.1, v.userId) with
      | some m' =>
        rw [hown] at hm
        exact h.own _ _ m (hown.trans hm)
      | none =>
        rw [hown] at hm
        obtain rfl := Option.some.inj hm
        have hv : v ∈ matchValues (k.rules.getD []) r.2 := by
          rw [hvalues]
          simp
        exact ⟨⟨r, hmem, rfl, v, hv, rfl, rfl⟩, hnone, hlive⟩
    next => exact h.own id u m hm
  · intro r' hr'
    have hr : r' ∈ k.bulletins := hsplit ▸ List.mem_append_left _ hr'
    exact (hsame r' hr (ne_of_nodup hnodup (Or.inl hr'))).settled (hdone r' hr')
  · intro r' hr'
    have hr : r' ∈ k.bulletins := hsplit ▸ List.mem_append_right _ (List.mem_cons_of_mem _ hr')
    exact (hsame r' hr (ne_of_nodup hnodup (Or.inr hr'))).waiting (htodo r' hr')
  · have hkept : ∀ key, (k.userMatches.get key).isSome = true →
        ((k.userMatches.upsert (r.1, v.userId) (v.row t k.now) id).get key).isSome = true := by
      intro key hkey
      rw [Table.get_upsert]
      split
      · rfl
      · exact hkey
    rcases List.mem_append.mp hv' with hv' | hv'
    · exact (hfiled v' hv').imp_left (hkept _)
    · rw [List.mem_singleton.mp hv']
      refine Or.inl ?_
      show ((k.userMatches.upsert (r.1, v.userId) (v.row t k.now) id).get _).isSome = true
      rw [Table.get_upsert_self]
      rfl

/-- A bulletin whose values are all filed is settled with its marker. -/
theorem finish (h : TickInv cfg labels db t k) {r : BulletinId × Bulletin}
    {todo : List (BulletinId × Bulletin)} (hphase : k.phase = .filing r [] todo) :
    TickInv cfg labels db t { k with runs := k.runs ++ [r.1], phase := .matching todo } := by
  obtain ⟨done, hsplit, hnodup, hdone, htodo, hnow, ⟨filed, hvalues, hfiled⟩, hunpushed⟩ :=
    h.stage_of hphase
  have hsame : ∀ r' : BulletinId × Bulletin, r'.1 ≠ r.1 → SameFor k
      { k with runs := k.runs ++ [r.1], phase := .matching todo } r'.1 := fun r' hne =>
    ⟨rfl, by simp [hne], Iff.rfl, fun _ => rfl⟩
  rw [hsplit] at hnodup
  refine ⟨h.below, h.locked, h.own, h.read, h.failed, done ++ [r], ?_, hsplit ▸ hnodup, ?_, ?_,
    hunpushed⟩
  · rw [List.append_assoc]
    exact hsplit
  · intro r' hr'
    rcases List.mem_append.mp hr' with hr' | hr'
    · exact (hsame r' (ne_of_nodup hnodup (Or.inl hr'))).settled (hdone r' hr')
    · rw [List.mem_singleton.mp hr']
      refine Or.inr ⟨hnow.2, by simp, fun v hv => hfiled v ?_⟩
      rw [List.append_nil] at hvalues
      rwa [← hvalues]
  · intro r' hr'
    exact (hsame r' (ne_of_nodup hnodup (Or.inr hr'))).waiting (htodo r' hr')

/-- A bulletin whose matching fails is settled with nothing. -/
theorem fail (h : TickInv cfg labels db t k) {r : BulletinId × Bulletin}
    {values : List MatchValue} {todo : List (BulletinId × Bulletin)}
    (hphase : k.phase = .filing r values todo) :
    TickInv cfg labels db t
      { k with
        userMatches := k.userMatches.deleteWhere fun key _ => key.1 = r.1
        failed := k.failed ++ [r.1]
        phase := .matching todo } := by
  obtain ⟨done, hsplit, hnodup, hdone, htodo, hnow, -, hunpushed⟩ := h.stage_of hphase
  have hget : ∀ key, (k.userMatches.deleteWhere fun key _ => key.1 = r.1).get key =
      if key.1 = r.1 then none else k.userMatches.get key := fun key =>
    Table.get_deleteWhere_key k.userMatches (·.1 = r.1) key
  have hsame : ∀ r' : BulletinId × Bulletin, r'.1 ≠ r.1 → SameFor k
      { k with
        userMatches := k.userMatches.deleteWhere fun key _ => key.1 = r.1
        failed := k.failed ++ [r.1]
        phase := .matching todo } r'.1 := fun r' hne =>
    ⟨rfl, Iff.rfl, by simp [hne], fun u => (hget (r'.1, u)).trans (if_neg hne)⟩
  rw [hsplit] at hnodup
  refine ⟨h.below, h.locked, ?_, h.read, ?_, done ++ [r], ?_, hsplit ▸ hnodup, ?_, ?_,
    hunpushed⟩
  · intro id u m hm
    rw [hget] at hm
    split at hm
    · cases hm
    · exact h.own id u m hm
  · intro id hid
    rcases List.mem_append.mp hid with hid | hid
    · exact h.failed id hid
    · rw [List.mem_singleton.mp hid]
      refine List.mem_map_of_mem ?_
      show r ∈ k.bulletins
      rw [hsplit]
      simp
  · rw [List.append_assoc]
    exact hsplit
  · intro r' hr'
    rcases List.mem_append.mp hr' with hr' | hr'
    · exact (hsame r' (ne_of_nodup hnodup (Or.inl hr'))).settled (hdone r' hr')
    · rw [List.mem_singleton.mp hr']
      exact Or.inl ⟨by simp, hnow.1, fun u => (hget (r.1, u)).trans (if_pos rfl)⟩
  · intro r' hr'
    exact (hsame r' (ne_of_nodup hnodup (Or.inr hr'))).waiting (htodo r' hr')

/-! #### Pass B -/

/-- A committed match is not one of the tick's own. -/
theorem pendingMatches_nodup (h : TickInv cfg labels db t k) : (db.pendingMatches k).Nodup := by
  rw [Db.pendingMatches, List.nodup_append]
  refine ⟨db.userMatches.select_keys_nodup _, k.userMatches.keys_nodup, ?_⟩
  rintro ⟨id, u⟩ hcommitted _ hown rfl
  obtain ⟨⟨_, m⟩, hselect, rfl⟩ := List.mem_map.mp hcommitted
  obtain ⟨hget, -⟩ := (Table.mem_select_iff ..).mp hselect
  obtain ⟨m', hm'⟩ := Option.isSome_iff_exists.mp ((Table.mem_keys_iff ..).mp hown)
  obtain ⟨-, hnone, -⟩ := h.own id u m' hm'
  rw [hnone] at hget
  cases hget

theorem lookMatches (h : TickInv cfg labels db t k) {order : List MatchKey}
    (hphase : k.phase = .matching []) (horder : order.Perm (db.pendingMatches k)) :
    TickInv cfg labels db t
      { k with
        phase := .lockingMatches
          (order.filterMap fun key => (db.bulletins.get key.1).map fun b => (key, b)) [] } := by
  obtain ⟨done, hsplit, hnodup, hdone, -, hunpushed⟩ := h.stage_of hphase
  rw [List.append_nil] at hsplit
  refine h.advance rfl rfl rfl rfl rfl ⟨fun r hr => hdone r (hsplit ▸ hr), ?_,
    List.forall_mem_nil _, hunpushed⟩
  have hkeys : ∀ keys : List MatchKey, ((keys.filterMap fun key =>
      (db.bulletins.get key.1).map fun b => (key, b)).map Prod.fst).Sublist keys := by
    intro keys
    induction keys with
    | nil => exact List.Sublist.refl []
    | cons key keys ih =>
      cases hget : db.bulletins.get key.1 with
      | none => simpa [List.filterMap_cons, hget] using ih.cons key
      | some b => simpa [List.filterMap_cons, hget] using ih.cons_cons key
  exact (horder.nodup_iff.mpr h.pendingMatches_nodup).sublist (hkeys order)

theorem matchEnd (h : TickInv cfg labels db t k) {held : List (MatchKey × Match × Bulletin)}
    (hphase : k.phase = .lockingMatches [] held) :
    TickInv cfg labels db t { k with phase := .pushing held } := by
  obtain ⟨hall, hnodup, hheld, hstamps, hfilings⟩ := h.stage_of hphase
  refine h.advance rfl rfl rfl rfl rfl ⟨hall, ?_, hheld, ?_, ?_, ?_⟩
  · rw [List.map_nil, List.append_nil] at hnodup
    show (k.stamps.map Prod.fst ++ _).Nodup
    rwa [hstamps]
  · intro s hs
    rw [show k.stamps = [] from hstamps] at hs
    cases hs
  · intro f hf
    rw [show k.filings = [] from hfilings] at hf
    cases hf
  · show (k.filings.map Filing.key).Nodup
    rw [hfilings]
    exact List.nodup_nil

theorem matchSkip (h : TickInv cfg labels db t k) {key : MatchKey} {bulletin : Bulletin}
    {todo : List (MatchKey × Bulletin)} {held : List (MatchKey × Match × Bulletin)}
    (hphase : k.phase = .lockingMatches ((key, bulletin) :: todo) held) :
    TickInv cfg labels db t { k with phase := .lockingMatches todo held } := by
  obtain ⟨hall, hnodup, hheld, hunpushed⟩ := h.stage_of hphase
  refine h.advance rfl rfl rfl rfl rfl ⟨hall, ?_, hheld, hunpushed⟩
  exact hnodup.sublist ((List.sublist_cons_self _ _).append_left _)

/-- The match that is locked, or is the tick's own, is the tick's to stamp. -/
theorem holdMatch (h : TickInv cfg labels db t k) {key : MatchKey} {bulletin : Bulletin}
    {todo : List (MatchKey × Bulletin)} {held : List (MatchKey × Match × Bulletin)} {m : Match}
    (hphase : k.phase = .lockingMatches ((key, bulletin) :: todo) held)
    (hm : Held db t k key m) :
    TickInv cfg labels db t
      { k with phase := .lockingMatches todo (held ++ [(key, m, bulletin)]) } := by
  obtain ⟨hall, hnodup, hheld, hunpushed⟩ := h.stage_of hphase
  refine h.advance rfl rfl rfl rfl rfl ⟨hall, ?_, ?_, hunpushed⟩
  · rw [List.map_append, List.append_assoc]
    exact hnodup
  · intro x hx
    rcases List.mem_append.mp hx with hx | hx
    · exact hheld x hx
    · rw [List.mem_singleton.mp hx]
      exact hm

theorem stamp (h : TickInv cfg labels db t k) {key : MatchKey} {m : Match} {bulletin : Bulletin}
    {held : List (MatchKey × Match × Bulletin)} (jobId : Option JobId)
    (hphase : k.phase = .pushing ((key, m, bulletin) :: held)) :
    TickInv cfg labels db t
      { k with stamps := k.stamps ++ [(key, jobId)], phase := .pushing held } := by
  obtain ⟨hall, hnodup, hheld, hstamps, hfilings, honce⟩ := h.stage_of hphase
  refine h.advance rfl rfl rfl rfl rfl ⟨hall, ?_, fun x hx => hheld x (List.mem_cons_of_mem _ hx), ?_, ?_,
    honce⟩
  · rw [List.map_append, List.append_assoc]
    exact hnodup
  · intro s hs
    rcases List.mem_append.mp hs with hs | hs
    · exact hstamps s hs
    · rw [List.mem_singleton.mp hs]
      exact ⟨m, hheld _ List.mem_cons_self⟩
  · intro f hf
    obtain ⟨hkey, hm, hsound⟩ := hfilings f hf
    refine ⟨?_, hm, hsound⟩
    rw [List.map_append]
    exact List.mem_append_left _ hkey

/-- The job is of a match that has had none. -/
theorem file (h : TickInv cfg labels db t k) {key : MatchKey} {m : Match} {bulletin : Bulletin}
    {held : List (MatchKey × Match × Bulletin)} (jobId : JobId)
    (hphase : k.phase = .pushing ((key, m, bulletin) :: held)) :
    TickInv cfg labels db t
      { k with
        stamps := k.stamps ++ [(key, some jobId)]
        filings := k.filings ++ [⟨jobId, key, pushJob k.now key m bulletin, m⟩]
        phase := .pushing held } := by
  obtain ⟨hall, hnodup, hheld, -, hfilings, honce⟩ := h.stage_of hphase
  obtain ⟨-, hnodup', hheld', hstamps', hfilings', -⟩ := (h.stamp (some jobId) hphase).stage
  refine h.advance rfl rfl rfl rfl rfl ⟨hall, hnodup', hheld', hstamps', ?_, ?_⟩
  · intro f hf
    rcases List.mem_append.mp hf with hf | hf
    · exact hfilings' f hf
    · rw [List.mem_singleton.mp hf]
      refine ⟨by simp, hheld _ List.mem_cons_self, rfl, rfl, _, rfl, rfl⟩
  · have hnew : key ∉ k.filings.map Filing.key := by
      intro hmem
      obtain ⟨f, hf, hkey⟩ := List.mem_map.mp hmem
      have hstamped := (hfilings f hf).1
      rw [hkey] at hstamped
      rw [List.map_cons, List.nodup_append] at hnodup
      exact hnodup.2.2 key hstamped key List.mem_cons_self rfl
    rw [List.map_append, List.nodup_append]
    refine ⟨honce, List.nodup_singleton key, ?_⟩
    intro a ha b hb heq
    obtain rfl : b = key := List.mem_singleton.mp hb
    exact hnew (heq ▸ ha)

end TickInv

/-! ### What holds of the database -/

/-- No further match of the key will be pushed: its user or its bulletin is gone for good, or its
match has been stamped. -/
def Closed (db : Db) (key : MatchKey) : Prop :=
  db.deregistered key.2 = true ∨
    (db.bulletins.get key.1 = none ∧ key.1 < db.nextBulletin) ∨
    ∃ m, db.userMatches.get key = some m ∧ m.pushedAt.isSome = true

/-- What holds of what is committed. -/
structure Committed (cfg : Settings) (labels : List Label) (db : Db) : Prop where
  known : ∀ id u m, db.userMatches.get (id, u) = some m →
    (db.bulletins.get id).isSome = true ∧ db.deregistered u = false ∧ WasFiled cfg labels id u m
  below : ∀ id b, db.bulletins.get id = some b → id < db.nextBulletin
  closed : ∀ f ∈ db.filings, Closed db f.key
  once : (db.filings.map Filing.key).Nodup
  sound : ∀ f ∈ db.filings, f.Sound ∧ WasFiled cfg labels f.key.1 f.key.2 f.matched
  stored : ∀ j job id, db.jobs.get j = some job → job.dedupeKey = .bulletin id →
    ∃ f ∈ db.filings, f.jobId = j ∧ f.key = (id, job.userId) ∧ f.job.payload = job.payload
  row : ∀ key t, db.matchLocks key = some t → (db.userMatches.get key).isSome = true
  lockedRow : ∀ id t, db.bulletinLocks id = some t → (db.bulletins.get id).isSome = true

/-- What holds of a database and its ticks. -/
structure DispatchInv (cfg : Settings) (labels : List Label) (db : Db) : Prop where
  ticks : ∀ t k, db.ticks.get t = some k → TickInv cfg labels db t k
  committed : Committed cfg labels db

theorem Committed.snoc (h : Committed cfg labels db) (l : Label) :
    Committed cfg (labels ++ [l]) db where
  known id u m hm := by
    obtain ⟨hrow, hlive, hfiled⟩ := h.known id u m hm
    exact ⟨hrow, hlive, hfiled.snoc l⟩
  below := h.below
  closed := h.closed
  once := h.once
  sound f hf := ⟨(h.sound f hf).1, (h.sound f hf).2.snoc l⟩
  stored := h.stored
  row := h.row
  lockedRow := h.lockedRow

theorem DispatchInv.snoc (h : DispatchInv cfg labels db) (l : Label) :
    DispatchInv cfg (labels ++ [l]) db where
  ticks t k hk := (h.ticks t k hk).snoc l
  committed := h.committed.snoc l

theorem dispatchInv_initial : DispatchInv cfg [] Db.initial where
  ticks t k hk := by cases hk
  committed := by
    refine ⟨?_, ?_, ?_, List.nodup_nil, ?_, ?_, ?_, ?_⟩
    · intro id u m hm
      cases hm
    · intro id b hb
      cases hb
    · exact List.forall_mem_nil _
    · exact List.forall_mem_nil _
    · intro j job id hj
      cases hj
    · intro key t ht
      cases ht
    · intro id t ht
      cases ht

/-- What a step must leave to every tick for it to keep what holds of them. -/
theorem Kept.of_eq (hnext : db.nextTick ≤ db'.nextTick) (hlocks : db'.bulletinLocks = db.bulletinLocks)
    (hbulletins : db'.bulletins = db.bulletins) (hmatches : db'.userMatches = db.userMatches)
    (hheld : db'.matchLocks = db.matchLocks) (husers : db'.deregistered = db.deregistered) :
    Kept t k db db' where
  nextTick := hnext
  locked id hid := by rw [hlocks, hbulletins]; exact ⟨hid, rfl⟩
  absent id u _ hnone := by rw [hmatches]; exact hnone
  filed id u _ hsome := by rw [hmatches]; exact Or.inl hsome
  held key hkey := by rw [hheld, hmatches]; exact ⟨hkey, rfl⟩
  gone u hu := by rw [husers]; exact hu
  alive key m _ hu := by rw [husers]; exact hu

namespace DispatchInv

/-- A statement of a tick that writes nothing others see. -/
theorem setTick (h : DispatchInv cfg labels db) (htick : TickInv cfg labels db t k) :
    DispatchInv cfg labels (db.setTick t k) where
  ticks t' k' hk' := by
    have hkept : ∀ t' k', Kept t' k' db (db.setTick t k) := fun _ _ =>
      Kept.of_eq (Nat.le_refl _) rfl rfl rfl rfl rfl
    rw [Db.setTick, Table.get_set] at hk'
    split at hk'
    next heq =>
      obtain rfl := Option.some.inj hk'
      subst heq
      exact (hkept _ _).tickInv htick
    next => exact (hkept _ _).tickInv (h.ticks t' k' hk')
  committed := { h.committed with }

/-- A tick locks a bulletin nobody else holds. -/
theorem lockBulletin (h : DispatchInv cfg labels db) {id : BulletinId}
    {row : Bulletin} (hfree : db.bulletinLocks.Available t id)
    (hrow : db.bulletins.get id = some row) :
    DispatchInv cfg labels { db with bulletinLocks := db.bulletinLocks.lock t id } where
  ticks t' k' hk' := by
    refine Kept.tickInv ?_ (h.ticks t' k' hk')
    exact ⟨Nat.le_refl _, fun id' hid => ⟨RowLocks.lock_of_held hid hfree, rfl⟩,
      fun _ _ _ hnone => hnone, fun _ _ _ hsome => Or.inl hsome, fun _ hkey => ⟨hkey, rfl⟩,
      fun _ hu => hu, fun _ _ _ hu => hu⟩
  committed :=
    { h.committed with
      lockedRow := fun id' t' hid => by
        rcases update_cases hid with ⟨rfl, -⟩ | ⟨-, hold⟩
        · show (db.bulletins.get _).isSome = true
          rw [hrow]
          rfl
        · exact h.committed.lockedRow id' t' hold }

/-- A tick locks a committed match nobody else holds. -/
theorem lockMatch (h : DispatchInv cfg labels db) {key : MatchKey} {m : Match}
    (hfree : db.matchLocks.Available t key) (hrow : db.userMatches.get key = some m) :
    DispatchInv cfg labels { db with matchLocks := db.matchLocks.lock t key } where
  ticks t' k' hk' := by
    refine Kept.tickInv ?_ (h.ticks t' k' hk')
    exact ⟨Nat.le_refl _, fun _ hid => ⟨hid, rfl⟩, fun _ _ _ hnone => hnone,
      fun _ _ _ hsome => Or.inl hsome, fun _ hkey => ⟨RowLocks.lock_of_held hkey hfree, rfl⟩,
      fun _ hu => hu, fun _ _ _ hu => hu⟩
  committed :=
    { h.committed with
      row := fun key' t' hkey' => by
        rcases update_cases hkey' with ⟨rfl, -⟩ | ⟨-, hold⟩
        · show (db.userMatches.get _).isSome = true
          rw [hrow]
          rfl
        · exact h.committed.row key' t' hold }

/-- The ticks left after one has ended. -/
theorem get_endTick {t' : TickId} {k' : Tick} (hk' : (db.endTick t).ticks.get t' = some k') :
    t' ≠ t ∧ db.ticks.get t' = some k' := by
  rw [Db.endTick, Table.get_deleteWhere, Option.filter_eq_some_iff] at hk'
  exact ⟨by simpa using hk'.2, hk'.1⟩

/-- A rollback drops what the tick has written. -/
theorem rollback (h : DispatchInv cfg labels db) (t : TickId) :
    DispatchInv cfg labels (db.endTick t) where
  ticks t' k' hk' := by
    obtain ⟨hne, hk⟩ := get_endTick hk'
    refine Kept.tickInv ?_ (h.ticks t' k' hk)
    exact ⟨Nat.le_refl _, fun _ hid => ⟨RowLocks.release_of_held hid hne, rfl⟩,
      fun _ _ _ hnone => hnone, fun _ _ _ hsome => Or.inl hsome,
      fun _ hkey => ⟨RowLocks.release_of_held hkey hne, rfl⟩, fun _ hu => hu, fun _ _ _ hu => hu⟩
  committed :=
    { h.committed with
      row := fun key t' hkey => h.committed.row key t' (RowLocks.held_of_release hkey)
      lockedRow := fun id t' hid => h.committed.lockedRow id t' (RowLocks.held_of_release hid) }

section Commit

variable (h : DispatchInv cfg labels db) (hk : db.ticks.get t = some k)
  (hphase : k.phase = .pushing [])

theorem stamped_filedBy (key : MatchKey) (m : Match) :
    (k.stamped key m).filedBy = m.filedBy ∧ (k.stamped key m).deviceIds = m.deviceIds := by
  rw [Tick.stamped]
  cases k.stamps.lookup key with
  | none => exact ⟨rfl, rfl⟩
  | some jobId => exact ⟨rfl, rfl⟩

/-- A match after a commit is a committed one or the tick's own, stamped if the tick has. -/
theorem get_commitTick (key : MatchKey) :
    (db.commitTick t k).userMatches.get key =
      ((db.userMatches.get key).or (k.userMatches.get key)).map (k.stamped key) := by
  have hinsert := Table.get_insertFrom db.userMatches k.userMatches (fun _ m => some m) key
  rw [Option.bind_fun_some] at hinsert
  show (Table.modify _ k.stamped).get key = _
  rw [Table.get_modify, hinsert]

theorem get_bulletins_commitTick (id : BulletinId) :
    (db.commitTick t k).bulletins.get id = (db.bulletins.get id).map fun b =>
      if id ∈ k.failed then
        { b with matchRetryAt := some (k.now + FAILED_BULLETIN_RETRY_DELAY) } else b :=
  Table.get_modify ..

/-- A stamped match is the tick's own, or committed and locked by it. -/
theorem held_of_stamped (h : TickInv cfg labels db t k) (hphase : k.phase = .pushing [])
    {key : MatchKey} (hkey : key ∈ k.stamps.map Prod.fst) : ∃ m, Held db t k key m := by
  obtain ⟨s, hs, rfl⟩ := List.mem_map.mp hkey
  exact (h.stage_of hphase).2.2.2.1 s hs

include h hk hphase

/-- A commit leaves the other ticks what they have locked and filed. -/
theorem kept_commitTick {t' : TickId} {k' : Tick} (hne : t' ≠ t) :
    Kept t' k' db (db.commitTick t k) := by
  have hinv := h.ticks t k hk
  have hother : ∀ id, db.bulletinLocks id = some t' → id ∉ k.bulletins.map Prod.fst := by
    intro id hid hmem
    obtain ⟨r, hr, rfl⟩ := List.mem_map.mp hmem
    exact hne (Option.some.inj (hid.symm.trans (hinv.locked r hr).1))
  have hown : ∀ id u, db.bulletinLocks id = some t' → k.userMatches.get (id, u) = none := by
    intro id u hid
    cases hget : k.userMatches.get (id, u) with
    | none => rfl
    | some m =>
      obtain ⟨⟨r, hr, rfl, -⟩, -⟩ := hinv.own id u m hget
      exact absurd (List.mem_map_of_mem hr) (hother r.1 hid)
  refine ⟨Nat.le_refl _, ?_, ?_, ?_, ?_, fun _ hu => hu, fun _ _ _ hu => hu⟩
  · intro id hid
    refine ⟨RowLocks.release_of_held hid hne, ?_⟩
    rw [get_bulletins_commitTick]
    have hfailed : id ∉ k.failed := fun hmem => hother id hid (hinv.failed id hmem)
    simp [hfailed]
  · intro id u hid hnone
    rw [get_commitTick, hnone, hown id u hid]
    rfl
  · intro id u hid hsome
    obtain ⟨m, hm⟩ := Option.isSome_iff_exists.mp hsome
    rw [get_commitTick, hm]
    exact Or.inl rfl
  · intro key hkey
    refine ⟨RowLocks.release_of_held hkey hne, ?_⟩
    obtain ⟨m, hm⟩ := Option.isSome_iff_exists.mp (h.committed.row key t' hkey)
    rw [get_commitTick, hm]
    have hunstamped : key ∉ k.stamps.map Prod.fst := by
      intro hmem
      obtain ⟨m', hown' | ⟨hlock, -⟩⟩ := held_of_stamped hinv hphase hmem
      · obtain ⟨id, u⟩ := key
        obtain ⟨-, hnone, -⟩ := hinv.own id u m' hown'
        cases hnone.symm.trans hm
      · exact hne (Option.some.inj (hkey.symm.trans hlock))
    have hlookup : k.stamps.lookup key = none := by
      rw [List.lookup_eq_none_iff]
      intro s hs
      rw [bne_iff_ne]
      rintro rfl
      exact hunstamped (List.mem_map_of_mem hs)
    simp [Tick.stamped, hlookup]

/-- The match of a filing is committed, and stamped, once the tick commits. -/
theorem closed_filing {f : Filing} (hf : f ∈ k.filings) : Closed (db.commitTick t k) f.key := by
  have hinv := h.ticks t k hk
  obtain ⟨hkey, hheld, -⟩ := (hinv.stage_of hphase).2.2.2.2.1 f hf
  have hsome : ((db.userMatches.get f.key).or (k.userMatches.get f.key)).isSome = true := by
    rcases hheld with hown | ⟨-, hrow, -⟩
    · rw [hown]
      cases db.userMatches.get f.key <;> rfl
    · rw [hrow]
      rfl
  obtain ⟨m, hm⟩ := Option.isSome_iff_exists.mp hsome
  refine Or.inr (Or.inr ⟨k.stamped f.key m, by rw [get_commitTick, hm]; rfl, ?_⟩)
  obtain ⟨s, hs, hfst⟩ := List.mem_map.mp hkey
  cases hlookup : k.stamps.lookup f.key with
  | none =>
    rw [List.lookup_eq_none_iff] at hlookup
    have hne := hlookup s hs
    rw [hfst] at hne
    simp at hne
  | some jobId =>
    rw [Tick.stamped, hlookup]
    rfl

/-- A tick's filing is of a match that has had no job. -/
theorem not_closed_of_filing {f : Filing} (hf : f ∈ k.filings) : ¬Closed db f.key := by
  have hinv := h.ticks t k hk
  obtain ⟨-, hheld, -⟩ := (hinv.stage_of hphase).2.2.2.2.1 f hf
  obtain ⟨⟨id, u⟩, hkey⟩ : ∃ key, key = f.key := ⟨_, rfl⟩
  rw [← hkey] at hheld ⊢
  rcases hheld with hown | ⟨-, hrow, hpending⟩
  · obtain ⟨⟨r, hr, rfl, -⟩, hnone, hlive⟩ := hinv.own id u _ hown
    rintro (hgone | ⟨hbulletin, -⟩ | ⟨m, hm, -⟩)
    · cases hlive.symm.trans hgone
    · cases hbulletin.symm.trans (hinv.locked r hr).2
    · cases hnone.symm.trans hm
  · obtain ⟨hsome, hlive, -⟩ := h.committed.known id u _ hrow
    rintro (hgone | ⟨hbulletin, -⟩ | ⟨m, hm, hpushed⟩)
    · cases hlive.symm.trans hgone
    · rw [hbulletin] at hsome
      cases hsome
    · obtain rfl := Option.some.inj (hrow.symm.trans hm)
      rw [hpending] at hpushed
      cases hpushed

theorem commit : DispatchInv cfg labels (db.commitTick t k) where
  ticks t' k' hk' := by
    obtain ⟨hne, hold⟩ := get_endTick hk'
    exact (kept_commitTick h hk hphase hne).tickInv (h.ticks t' k' hold)
  committed := by
    have hinv := h.ticks t k hk
    obtain ⟨-, -, -, -, hfilings, honce⟩ := hinv.stage_of hphase
    refine ⟨?_, ?_, ?_, ?_, ?_, ?_, ?_, ?_⟩
    · intro id u m hm
      rw [get_commitTick, Option.map_eq_some_iff] at hm
      obtain ⟨m, hm, rfl⟩ := hm
      obtain ⟨hfiledBy, hdevices⟩ := stamped_filedBy (k := k) (id, u) m
      have hwas : WasFiled cfg labels id u m → WasFiled cfg labels id u (k.stamped (id, u) m) :=
        fun hfiled => hfiled.imp fun before l hevent => by
          rwa [FiledFrom, hfiledBy, hdevices]
      rw [get_bulletins_commitTick, Option.isSome_map]
      rcases Option.or_eq_some_iff.mp hm with hold | ⟨-, hown⟩
      · obtain ⟨hrow, hlive, hfiled⟩ := h.committed.known id u m hold
        exact ⟨hrow, hlive, hwas hfiled⟩
      · obtain ⟨hrow, -, hlive⟩ := hinv.own id u m hown
        have hfiled := hinv.wasFiled hrow
        obtain ⟨r, hr, rfl, -⟩ := hrow
        refine ⟨?_, hlive, hwas hfiled⟩
        rw [(hinv.locked r hr).2]
        rfl
    · intro id b hb
      rw [get_bulletins_commitTick, Option.map_eq_some_iff] at hb
      obtain ⟨b', hb', -⟩ := hb
      exact h.committed.below id b' hb'
    · intro f hf
      rcases List.mem_append.mp hf with hf | hf
      · rcases h.committed.closed f hf with hgone | ⟨hnone, hlt⟩ | ⟨m, hm, hpushed⟩
        · exact Or.inl hgone
        · refine Or.inr (Or.inl ⟨?_, hlt⟩)
          rw [get_bulletins_commitTick, hnone]
          rfl
        · refine Or.inr (Or.inr ⟨_, by rw [get_commitTick, hm]; rfl, ?_⟩)
          rw [Tick.stamped]
          split
          · rfl
          · exact hpushed
      · exact closed_filing h hk hphase hf
    · rw [show (db.commitTick t k).filings = db.filings ++ k.filings from rfl, List.map_append,
        List.nodup_append]
      refine ⟨h.committed.once, honce, ?_⟩
      rintro key hold _ hnew rfl
      obtain ⟨f, hf, rfl⟩ := List.mem_map.mp hold
      obtain ⟨f', hf', hkey⟩ := List.mem_map.mp hnew
      exact not_closed_of_filing h hk hphase hf' (hkey ▸ h.committed.closed f hf)
    · intro f hf
      rcases List.mem_append.mp hf with hf | hf
      · exact h.committed.sound f hf
      · obtain ⟨-, hheld, hsound⟩ := hfilings f hf
        refine ⟨hsound, ?_⟩
        rcases hheld with hown | ⟨-, hrow, -⟩
        · exact hinv.wasFiled (hinv.own f.key.1 f.key.2 _ hown).1
        · exact (h.committed.known f.key.1 f.key.2 _ hrow).2.2
    · intro j job id hj hbulletin
      -- The tick's jobs come after those that were stored.
      have hset : ∀ (fs : List Filing) (jobs : Table JobId Job),
          (fs.foldl (fun jobs f => jobs.set f.jobId f.job) jobs).get j = some job →
            jobs.get j = some job ∨ ∃ f ∈ fs, f.jobId = j ∧ f.job = job := by
        intro fs
        induction fs with
        | nil => exact fun jobs hget => Or.inl hget
        | cons f fs ih =>
          intro jobs hget
          rcases ih _ hget with hget | ⟨f', hf', hid, hjob⟩
          · rw [Table.get_set] at hget
            split at hget
            next heq => exact Or.inr ⟨f, List.mem_cons_self, heq.symm, Option.some.inj hget⟩
            next => exact Or.inl hget
          · exact Or.inr ⟨f', List.mem_cons_of_mem f hf', hid, hjob⟩
      rcases hset k.filings db.jobs hj with hold | ⟨f, hf, hid, rfl⟩
      · obtain ⟨f, hf, hrest⟩ := h.committed.stored j job id hold hbulletin
        exact ⟨f, List.mem_append_left _ hf, hrest⟩
      · obtain ⟨-, -, hsound⟩ := hfilings f hf
        refine ⟨f, List.mem_append_right _ hf, hid, ?_, rfl⟩
        have hkey := hsound.dedupeKey.symm.trans hbulletin
        rw [hsound.userId, ← JobKey.bulletin.inj hkey]
    · intro key t' hkey
      obtain ⟨m, hm⟩ := Option.isSome_iff_exists.mp
        (h.committed.row key t' (RowLocks.held_of_release hkey))
      rw [get_commitTick, hm]
      rfl
    · intro id t' hid
      rw [get_bulletins_commitTick, Option.isSome_map]
      exact h.committed.lockedRow id t' (RowLocks.held_of_release hid)

end Commit

/-- The statements of the ticks keep what holds of the database. -/
theorem statement (h : DispatchInv cfg labels db)
    (hexec : exec (step cfg) Db.initial labels = some db) (hk : db.ticks.get t = some k)
    (hs : Statement db t k l db') : DispatchInv cfg (labels ++ [l]) db' := by
  have hinv := h.ticks t k hk
  cases hs with
  | look hphase => exact (h.setTick (hinv.look hphase)).snoc _
  | lockEnd todo hphase => exact (h.setTick (hinv.lockEnd hphase)).snoc _
  | lockSkip id rest hphase => exact (h.setTick (hinv.lockSkip hphase)).snoc _
  | lock id rest row hphase hfree hrow =>
    have hlocked := h.lockBulletin hfree hrow
    have htick := (hlocked.ticks t k hk).lock hphase (RowLocks.lock_self (l := db.bulletinLocks)) hrow
    exact (hlocked.setTick htick).snoc _
  | readNone hphase hnone => exact (h.setTick (hinv.readNone hphase hnone)).snoc _
  | readRules hphase => exact (h.snoc _).setTick (hinv.readRules hphase hexec)
  | savepoint r todo hphase => exact (h.setTick (hinv.savepoint hphase)).snoc _
  | insertNothing r v values todo hphase hsome =>
    exact (h.setTick (hinv.insertNothing hphase hsome)).snoc _
  | insertMatch r v values todo hphase hlive hnone =>
    exact (h.setTick (hinv.insertMatch hphase hlive hnone)).snoc _
  | finish r todo hphase => exact (h.setTick (hinv.finish hphase)).snoc _
  | fail r values todo hphase => exact (h.setTick (hinv.fail hphase)).snoc _
  | lookMatches order hphase horder => exact (h.setTick (hinv.lookMatches hphase horder)).snoc _
  | matchEnd held hphase => exact (h.setTick (hinv.matchEnd hphase)).snoc _
  | matchSkip key bulletin todo held hphase => exact (h.setTick (hinv.matchSkip hphase)).snoc _
  | ownMatch key bulletin todo held m hphase hown =>
    exact (h.setTick (hinv.holdMatch hphase (Or.inl hown))).snoc _
  | lockMatch key bulletin todo held m hphase hfree hrow hpending =>
    have hlocked := h.lockMatch hfree hrow
    have htick := (hlocked.ticks t k hk).holdMatch hphase
      (Or.inr ⟨RowLocks.lock_self (l := db.matchLocks), hrow, hpending⟩)
    exact (hlocked.setTick htick).snoc _
  | stamp key m bulletin held jobId hphase => exact (h.setTick (hinv.stamp jobId hphase)).snoc _
  | file key m bulletin held hphase =>
    have hkept : ∀ t' k', Kept t' k' db { db with nextJob := db.nextJob + 1 } := fun _ _ =>
      Kept.of_eq (Nat.le_refl _) rfl rfl rfl rfl rfl
    have hnext : DispatchInv cfg labels { db with nextJob := db.nextJob + 1 } :=
      ⟨fun t' k' hk' => (hkept t' k').tickInv (h.ticks t' k' hk'), { h.committed with }⟩
    exact (hnext.setTick ((hnext.ticks t k hk).file db.nextJob hphase)).snoc _
  | commit hphase => exact (h.commit hk hphase).snoc _
  | rollback => exact (h.rollback t).snoc _

/-! #### The other writers -/

theorem begin (h : DispatchInv cfg labels db) (now : Time) :
    DispatchInv cfg labels
      { db with
        ticks := db.ticks.set db.nextTick (Tick.begun now), nextTick := db.nextTick + 1 } where
  ticks t k hk := by
    rw [Table.get_set] at hk
    split at hk
    next heq =>
      obtain rfl := Option.some.inj hk
      refine ⟨heq ▸ Nat.lt_succ_self _, List.forall_mem_nil _, ?_, ?_, List.forall_mem_nil _, ?_⟩
      · intro id u m hm
        cases hm
      · intro rules hrules
        cases hrules
      · exact ⟨rfl, rfl, ⟨rfl, rfl, fun _ => rfl⟩, rfl, rfl⟩
    next =>
      have hkept : Kept t k db { db with
          ticks := db.ticks.set db.nextTick (Tick.begun now), nextTick := db.nextTick + 1 } :=
        Kept.of_eq (Nat.le_succ _) rfl rfl rfl rfl rfl
      exact hkept.tickInv (h.ticks t k hk)
  committed := { h.committed with }

/-- A new bulletin has a key of its own. -/
theorem newBulletin (h : DispatchInv cfg labels db) (bulletin : Bulletin) (marked : Bool) :
    DispatchInv cfg labels
      { db with
        bulletins := db.bulletins.set db.nextBulletin bulletin
        nextBulletin := db.nextBulletin + 1
        runs := fun id => if id = db.nextBulletin then marked else db.runs id } := by
  have hold : ∀ id, id ≠ db.nextBulletin →
      (db.bulletins.set db.nextBulletin bulletin).get id = db.bulletins.get id := fun id hne => by
    rw [Table.get_set, if_neg hne]
  have hne : ∀ id, (db.bulletins.get id).isSome = true → id ≠ db.nextBulletin := fun id hsome => by
    obtain ⟨b, hb⟩ := Option.isSome_iff_exists.mp hsome
    exact (h.committed.below id b hb).ne
  have hstays : ∀ id, (db.bulletins.get id).isSome = true →
      ((db.bulletins.set db.nextBulletin bulletin).get id).isSome = true := fun id hsome => by
    rwa [hold id (hne id hsome)]
  refine ⟨fun t k hk => Kept.tickInv ?_ (h.ticks t k hk), { h.committed with
    known := ?_, below := ?_, closed := ?_, lockedRow := ?_ }⟩
  · exact ⟨Nat.le_refl _,
      fun id hid => ⟨hid, hold id (hne id (h.committed.lockedRow id t hid))⟩,
      fun _ _ _ hnone => hnone, fun _ _ _ hsome => Or.inl hsome, fun _ hkey => ⟨hkey, rfl⟩,
      fun _ hu => hu, fun _ _ _ hu => hu⟩
  · intro id u m hm
    obtain ⟨hrow, hlive, hfiled⟩ := h.committed.known id u m hm
    exact ⟨hstays id hrow, hlive, hfiled⟩
  · intro id b hb
    show id < db.nextBulletin + 1
    by_cases hid : id = db.nextBulletin
    · exact hid ▸ Nat.lt_succ_self _
    · rw [hold id hid] at hb
      exact Nat.lt_succ_of_lt (h.committed.below id b hb)
  · intro f hf
    rcases h.committed.closed f hf with hgone | ⟨hnone, hlt⟩ | hstamped
    · exact Or.inl hgone
    · refine Or.inr (Or.inl ⟨?_, Nat.lt_succ_of_lt hlt⟩)
      rwa [hold f.key.1 hlt.ne]
    · exact Or.inr (Or.inr hstamped)
  · exact fun id t hid => hstays id (h.committed.lockedRow id t hid)

/-- No tick holds the bulletin that is edited. -/
theorem editBulletin (h : DispatchInv cfg labels db) {id : BulletinId} (bulletin : Bulletin)
    (hfree : db.bulletinLocks id = none) (hsome : (db.bulletins.get id).isSome = true) :
    DispatchInv cfg labels { db with bulletins := db.bulletins.set id bulletin } := by
  have hstays : ∀ i, ((db.bulletins.set id bulletin).get i).isSome =
      (db.bulletins.get i).isSome := fun i => by
    rw [Table.get_set]
    split
    next heq => rw [heq, hsome, Option.isSome_some]
    next => rfl
  refine ⟨fun t k hk => Kept.tickInv ?_ (h.ticks t k hk), { h.committed with
    known := ?_, below := ?_, closed := ?_, lockedRow := ?_ }⟩
  · refine ⟨Nat.le_refl _, fun i hi => ⟨hi, ?_⟩, fun _ _ _ hnone => hnone,
      fun _ _ _ hsome => Or.inl hsome, fun _ hkey => ⟨hkey, rfl⟩, fun _ hu => hu,
      fun _ _ _ hu => hu⟩
    have hne : i ≠ id := by
      rintro rfl
      cases hfree.symm.trans hi
    exact (Table.get_set ..).trans (if_neg hne)
  · intro i u m hm
    obtain ⟨hrow, hlive, hfiled⟩ := h.committed.known i u m hm
    exact ⟨(hstays i).trans hrow, hlive, hfiled⟩
  · intro i b hb
    have hi : (db.bulletins.get i).isSome = true := by
      rw [← hstays i, hb, Option.isSome_some]
    obtain ⟨b', hb'⟩ := Option.isSome_iff_exists.mp hi
    exact h.committed.below i b' hb'
  · intro f hf
    rcases h.committed.closed f hf with hgone | ⟨hnone, hlt⟩ | hstamped
    · exact Or.inl hgone
    · refine Or.inr (Or.inl ⟨?_, hlt⟩)
      rw [← Option.isNone_iff_eq_none, ← Option.not_isSome, hstays, hnone]
      rfl
    · exact Or.inr (Or.inr hstamped)
  · exact fun i t hi => (hstays i).trans (h.committed.lockedRow i t hi)

/-- No tick holds the bulletin that is deleted, nor a match of it. -/
theorem deleteBulletin (h : DispatchInv cfg labels db) {id : BulletinId}
    (hfree : db.deletable id = true) :
    DispatchInv cfg labels
      { db with
        bulletins := db.bulletins.deleteWhere fun i _ => i = id
        userMatches := db.userMatches.deleteWhere fun key _ => key.1 = id
        runs := fun i => if i = id then false else db.runs i } := by
  obtain ⟨hlock, hmatches⟩ := Bool.and_eq_true_iff.mp hfree
  have hlock := of_decide_eq_true hlock
  have hheld : ∀ key t, db.matchLocks key = some t → key.1 ≠ id := by
    intro key t hkey hid
    have hmem := (Table.mem_keys_iff ..).mpr (h.committed.row key t hkey)
    have hnone := of_decide_eq_true (List.all_eq_true.mp hmatches key hmem) hid
    cases hnone.symm.trans hkey
  have hlocked : ∀ i t, db.bulletinLocks i = some t → i ≠ id := by
    rintro i t hi rfl
    cases hlock.symm.trans hi
  have hrows : ∀ i, i ≠ id →
      (db.bulletins.deleteWhere fun i _ => i = id).get i = db.bulletins.get i := by
    intro i hi
    exact (Table.get_deleteWhere_key db.bulletins (· = id) i).trans (if_neg hi)
  have hkeys : ∀ key : MatchKey, key.1 ≠ id →
      (db.userMatches.deleteWhere fun key _ => key.1 = id).get key = db.userMatches.get key := by
    intro key hkey
    exact (Table.get_deleteWhere_key db.userMatches (·.1 = id) key).trans (if_neg hkey)
  have hgone : ∀ key m, (db.userMatches.deleteWhere fun key _ => key.1 = id).get key = some m →
      key.1 ≠ id ∧ db.userMatches.get key = some m := by
    intro key m hm
    rw [Table.get_deleteWhere_key db.userMatches (·.1 = id)] at hm
    split at hm
    · cases hm
    next hne => exact ⟨hne, hm⟩
  refine ⟨fun t k hk => Kept.tickInv ?_ (h.ticks t k hk), { h.committed with
    known := ?_, below := ?_, closed := ?_, row := ?_, lockedRow := ?_ }⟩
  · refine ⟨Nat.le_refl _, fun i hi => ⟨hi, hrows i (hlocked i t hi)⟩, ?_, ?_,
      fun key hkey => ⟨hkey, hkeys key (hheld key t hkey)⟩, fun _ hu => hu, fun _ _ _ hu => hu⟩
    · intro i u hi hnone
      exact (hkeys (i, u) (hlocked i t hi)).trans hnone
    · intro i u hi hsome
      exact Or.inl ((congrArg Option.isSome (hkeys (i, u) (hlocked i t hi))).trans hsome)
  · intro i u m hm
    obtain ⟨hne, hm⟩ := hgone (i, u) m hm
    obtain ⟨hrow, hlive, hfiled⟩ := h.committed.known i u m hm
    exact ⟨(congrArg Option.isSome (hrows i hne)).trans hrow, hlive, hfiled⟩
  · intro i b hb
    rw [Table.get_deleteWhere, Option.filter_eq_some_iff] at hb
    exact h.committed.below i b hb.1
  · intro f hf
    rcases h.committed.closed f hf with hgone | ⟨hnone, hlt⟩ | ⟨m, hm, hpushed⟩
    · exact Or.inl hgone
    · refine Or.inr (Or.inl ⟨?_, hlt⟩)
      rw [Table.get_deleteWhere, hnone]
      rfl
    · by_cases hid : f.key.1 = id
      · -- The filing's match goes with its bulletin.
        obtain ⟨hrow, -⟩ := h.committed.known f.key.1 f.key.2 m hm
        obtain ⟨b, hb⟩ := Option.isSome_iff_exists.mp hrow
        refine Or.inr (Or.inl ⟨?_, h.committed.below f.key.1 b hb⟩)
        rw [Table.get_deleteWhere, hb]
        simp [hid]
      · exact Or.inr (Or.inr ⟨m, (hkeys f.key hid).trans hm, hpushed⟩)
  · intro key t hkey
    exact (congrArg Option.isSome (hkeys key (hheld key t hkey))).trans
      (h.committed.row key t hkey)
  · intro i t hi
    exact (congrArg Option.isSome (hrows i (hlocked i t hi))).trans (h.committed.lockedRow i t hi)

/-- No tick holds a match of the user who is deregistered, nor has filed one. -/
theorem deregister (h : DispatchInv cfg labels db) {userId : UserId}
    (hfree : db.deregisterable userId = true) :
    DispatchInv cfg labels
      { db with
        deregistered := Function.update db.deregistered userId true
        subscriptions := db.subscriptions.deleteWhere fun _ s => s.owner.1 = userId
        userMatches := db.userMatches.deleteWhere fun key _ => key.2 = userId
        jobs := db.jobs.deleteWhere fun _ job => job.userId = userId } := by
  obtain ⟨hmatches, hticks⟩ := Bool.and_eq_true_iff.mp hfree
  have hheld : ∀ key t, db.matchLocks key = some t → key.2 ≠ userId := by
    intro key t hkey hid
    have hmem := (Table.mem_keys_iff ..).mpr (h.committed.row key t hkey)
    have hnone := of_decide_eq_true (List.all_eq_true.mp hmatches key hmem) hid
    cases hnone.symm.trans hkey
  have hown : ∀ t k key m, db.ticks.get t = some k → k.userMatches.get key = some m →
      key.2 ≠ userId := by
    intro t k key m hk hm
    have hkeys := List.all_eq_true.mp hticks (t, k) ((Table.get_eq_some_iff ..).mp hk)
    have hmem := (Table.mem_keys_iff ..).mpr (Option.isSome_of_mem hm)
    exact of_decide_eq_true (List.all_eq_true.mp hkeys key hmem)
  have hstays : ∀ u, db.deregistered u = true →
      Function.update db.deregistered userId true u = true := by
    intro u hu
    by_cases huser : u = userId
    · rw [huser, Function.update_self]
    · rw [Function.update_of_ne huser, hu]
  have hkeys : ∀ key : MatchKey, key.2 ≠ userId →
      (db.userMatches.deleteWhere fun key _ => key.2 = userId).get key =
        db.userMatches.get key := by
    intro key hkey
    exact (Table.get_deleteWhere_key db.userMatches (·.2 = userId) key).trans (if_neg hkey)
  have hgone : ∀ key m,
      (db.userMatches.deleteWhere fun key _ => key.2 = userId).get key = some m →
        key.2 ≠ userId ∧ db.userMatches.get key = some m := by
    intro key m hm
    rw [Table.get_deleteWhere_key db.userMatches (·.2 = userId)] at hm
    split at hm
    · cases hm
    next hne => exact ⟨hne, hm⟩
  refine ⟨fun t k hk => Kept.tickInv ?_ (h.ticks t k hk), { h.committed with
    known := ?_, closed := ?_, stored := ?_, row := ?_ }⟩
  · refine ⟨Nat.le_refl _, fun _ hi => ⟨hi, rfl⟩, ?_, ?_,
      fun key hkey => ⟨hkey, hkeys key (hheld key t hkey)⟩, hstays, ?_⟩
    · intro i u _ hnone
      refine (Table.get_deleteWhere ..).trans ?_
      rw [hnone]
      rfl
    · intro i u _ hsome
      by_cases hu : u = userId
      · exact Or.inr (hu ▸ Function.update_self ..)
      · exact Or.inl ((congrArg Option.isSome (hkeys (i, u) hu)).trans hsome)
    · intro key m hm hlive
      exact (Function.update_of_ne (hown t k key m hk hm) ..).trans hlive
  · intro i u m hm
    obtain ⟨hne, hm⟩ := hgone (i, u) m hm
    obtain ⟨hrow, hlive, hfiled⟩ := h.committed.known i u m hm
    exact ⟨hrow, (Function.update_of_ne hne ..).trans hlive, hfiled⟩
  · intro f hf
    rcases h.committed.closed f hf with hgone | hnone | ⟨m, hm, hpushed⟩
    · exact Or.inl (hstays f.key.2 hgone)
    · exact Or.inr (Or.inl hnone)
    · by_cases hu : f.key.2 = userId
      · exact Or.inl (hu ▸ Function.update_self ..)
      · exact Or.inr (Or.inr ⟨m, (hkeys f.key hu).trans hm, hpushed⟩)
  · intro j job id hj
    rw [Table.get_deleteWhere, Option.filter_eq_some_iff] at hj
    exact h.committed.stored j job id hj.1
  · intro key t hkey
    exact (congrArg Option.isSome (hkeys key (hheld key t hkey))).trans
      (h.committed.row key t hkey)

/-- What others write of the jobs and the rules. -/
theorem otherJobs (h : DispatchInv cfg labels db) {subscriptions : Table RowId Subscription}
    {signedIn : DeviceId → Bool} {jobs : Table JobId Job} {nextJob : JobId}
    (hjobs : ∀ j job id, jobs.get j = some job → job.dedupeKey = .bulletin id →
      ∃ job', db.jobs.get j = some job' ∧ job'.dedupeKey = job.dedupeKey ∧
        job'.userId = job.userId ∧ job'.payload = job.payload) :
    DispatchInv cfg labels { db with subscriptions, signedIn, jobs, nextJob } where
  ticks t k hk := by
    have hkept : Kept t k db { db with subscriptions, signedIn, jobs, nextJob } :=
      Kept.of_eq (Nat.le_refl _) rfl rfl rfl rfl rfl
    exact hkept.tickInv (h.ticks t k hk)
  committed :=
    { h.committed with
      stored := fun j job id hj hid => by
        obtain ⟨job', hj', hkey, huser, hpayload⟩ := hjobs j job id hj hid
        obtain ⟨f, hf, hfid, hfkey, hfpayload⟩ :=
          h.committed.stored j job' id hj' (hkey.trans hid)
        exact ⟨f, hf, hfid, huser ▸ hfkey, hfpayload.trans hpayload⟩ }

end DispatchInv

/-- What holds of the database holds after every step. -/
theorem dispatchInv_step (h : DispatchInv cfg labels db)
    (hexec : exec (step cfg) Db.initial labels = some db) (hstep : step cfg db l = some db') :
    DispatchInv cfg (labels ++ [l]) db' := by
  have hjobsSame : ∀ j job id, db.jobs.get j = some job → job.dedupeKey = .bulletin id →
      ∃ job', db.jobs.get j = some job' ∧ job'.dedupeKey = job.dedupeKey ∧
        job'.userId = job.userId ∧ job'.payload = job.payload := fun j job _ hj _ =>
    ⟨job, hj, rfl, rfl, rfl⟩
  have htick : ∀ t, l.tick = some t → ((db.ticks.get t).bind fun k => tickStep cfg db t k l) =
      some db' → DispatchInv cfg (labels ++ [l]) db' := by
    intro t ht hbind
    obtain ⟨k, hk, htick⟩ := Option.bind_eq_some_iff.mp hbind
    exact h.statement hexec hk (statement_of_tickStep ht htick)
  cases l with
  | begin now =>
    obtain rfl := Option.some.inj hstep
    exact (h.begin now).snoc _
  | newBulletin bulletin marked =>
    obtain rfl := Option.some.inj hstep
    exact (h.newBulletin bulletin marked).snoc _
  | editBulletin id bulletin =>
    dsimp only [step] at hstep
    split at hstep
    next hfree =>
      obtain rfl := Option.some.inj hstep
      exact (h.editBulletin bulletin hfree.1 hfree.2).snoc _
    next => cases hstep
  | deleteBulletin id =>
    dsimp only [step] at hstep
    split at hstep
    next hfree =>
      obtain rfl := Option.some.inj hstep
      exact (h.deleteBulletin hfree).snoc _
    next => cases hstep
  | writeRules subscriptions signedIn =>
    obtain rfl := Option.some.inj hstep
    exact (h.otherJobs hjobsSame).snoc _
  | deregister userId =>
    dsimp only [step] at hstep
    split at hstep
    next hfree =>
      obtain rfl := Option.some.inj hstep
      exact (h.deregister hfree).snoc _
    next => cases hstep
  | setJobStatus id status =>
    obtain rfl := Option.some.inj hstep
    refine (h.otherJobs fun j job _ hj _ => ?_).snoc _
    rw [Table.get_modify, Option.map_eq_some_iff] at hj
    obtain ⟨job', hj', rfl⟩ := hj
    refine ⟨job', hj', ?_⟩
    split <;> exact ⟨rfl, rfl, rfl⟩
  | deleteJob id =>
    obtain rfl := Option.some.inj hstep
    refine (h.otherJobs fun j job _ hj _ => ?_).snoc _
    rw [Table.get_deleteWhere, Option.filter_eq_some_iff] at hj
    exact ⟨job, hj.1, rfl, rfl, rfl⟩
  | fileOther userId key fireAt =>
    obtain rfl := Option.some.inj hstep
    refine (h.otherJobs fun j job id hj hid => ?_).snoc _
    rw [Table.get_set] at hj
    split at hj
    next =>
      obtain rfl := Option.some.inj hj
      cases hid
    next => exact ⟨job, hj, rfl, rfl, rfl⟩
  | look t | lockNext t | readRules t | savepoint t | insertMatch t | finish t | fail t
  | lookMatches t _ | lockMatch t | push t | commit t | rollback t => exact htick t rfl hstep

/-- What holds of the database holds in every run. -/
theorem dispatchInv_of_run (hrun : FreeRun (step cfg) Db.initial labels db) :
    DispatchInv cfg labels db := by
  induction hrun with
  | nil => exact dispatchInv_initial
  | snoc hrun _ hstep ih => exact dispatchInv_step ih hrun.exec_eq hstep

/-! ### The commit of a tick -/

section Outcome

variable (h : DispatchInv cfg labels db) (hk : db.ticks.get t = some k)
  (hphase : k.phase = .pushing []) {r : BulletinId × Bulletin} (hr : r ∈ k.bulletins)

include h hk hphase hr

theorem settled_of_commit : Settled db k r :=
  ((h.ticks t k hk).stage_of hphase).1 r hr

/-- A bulletin whose matching has failed has no new match, and no marker of the tick's. -/
theorem commit_failed (hfailed : r.1 ∈ k.failed) :
    (db.commitTick t k).runs r.1 = db.runs r.1 ∧
      ∀ u, ((db.commitTick t k).userMatches.get (r.1, u)).isSome =
        (db.userMatches.get (r.1, u)).isSome := by
  rcases settled_of_commit h hk hphase hr with ⟨-, hruns, hnone⟩ | ⟨hnot, -⟩
  · refine ⟨?_, fun u => ?_⟩
    · show (db.runs r.1 || decide (r.1 ∈ k.runs)) = db.runs r.1
      rw [decide_eq_false hruns, Bool.or_false]
    · rw [DispatchInv.get_commitTick, hnone u, Option.or_none, Option.isSome_map]
  · exact absurd hfailed hnot

/-- Another is marked and as it was, and its matches are those of the rules the tick has read. -/
theorem commit_matched (hfailed : r.1 ∉ k.failed) :
    (db.commitTick t k).runs r.1 = true ∧
      (db.commitTick t k).bulletins.get r.1 = db.bulletins.get r.1 ∧
      ∀ u, db.userMatches.get (r.1, u) = none → db.deregistered u = false →
        ∀ deviceIds, (∃ m, (db.commitTick t k).userMatches.get (r.1, u) = some m ∧
            m.deviceIds = some deviceIds) ↔
          ∃ v ∈ matchValues (k.rules.getD []) r.2, v.userId = u ∧ v.deviceIds = deviceIds := by
  have hinv := h.ticks t k hk
  rcases settled_of_commit h hk hphase hr with ⟨hmem, -⟩ | ⟨-, hruns, hvalues⟩
  · exact absurd hmem hfailed
  refine ⟨?_, ?_, fun u hnone hlive deviceIds => ?_⟩
  · show (db.runs r.1 || decide (r.1 ∈ k.runs)) = true
    rw [decide_eq_true hruns, Bool.or_true]
  · rw [DispatchInv.get_bulletins_commitTick]
    simp [hfailed]
  · rw [DispatchInv.get_commitTick, hnone, Option.none_or]
    -- The row the tick has of the key is one of the bulletin's values, and there is one a user.
    have hrow : ∀ m, k.userMatches.get (r.1, u) = some m →
        ∃ v ∈ matchValues (k.rules.getD []) r.2, v.userId = u ∧ m.deviceIds = some v.deviceIds := by
      intro m hm
      obtain ⟨⟨r', hr', hid, v, hv, huser, rfl⟩, -⟩ := hinv.own r.1 u m hm
      have hsame : r'.2 = r.2 := by
        have hrow := (hinv.locked r' hr').2
        rw [hid, (hinv.locked r hr).2] at hrow
        exact (Option.some.inj hrow).symm
      exact ⟨v, hsame ▸ hv, huser, rfl⟩
    constructor
    · rintro ⟨_, hstamped, hdevices⟩
      obtain ⟨m, hm, rfl⟩ := Option.map_eq_some_iff.mp hstamped
      obtain ⟨v, hv, huser, hids⟩ := hrow m hm
      rw [(DispatchInv.stamped_filedBy (r.1, u) m).2, hids] at hdevices
      exact ⟨v, hv, huser, Option.some.inj hdevices⟩
    · rintro ⟨v, hv, rfl, rfl⟩
      rcases hvalues v hv with hown | hsome | hgone
      · obtain ⟨m, hm⟩ := Option.isSome_iff_exists.mp hown
        obtain ⟨v', hv', huser, hids⟩ := hrow m hm
        have hone := (matchValue_of_mem hv').symm
        rw [huser, matchValue_of_mem hv] at hone
        refine ⟨k.stamped (r.1, v.userId) m, by rw [hm]; rfl, ?_⟩
        rw [(DispatchInv.stamped_filedBy (r.1, v.userId) m).2, hids, Option.some.inj hone]
      · rw [hnone] at hsome
        cases hsome
      · cases hlive.symm.trans hgone

end Outcome

theorem commit_of_step (hk : db.ticks.get t = some k)
    (hstep : step cfg db (.commit t) = some db') :
    k.phase = .pushing [] ∧ db' = db.commitTick t k := by
  obtain ⟨k', hk', htick⟩ := Option.bind_eq_some_iff.mp hstep
  obtain rfl := Option.some.inj (hk.symm.trans hk')
  cases statement_of_tickStep rfl htick with
  | commit hphase => exact ⟨hphase, rfl⟩

/-- In every run of the ticks and the other writers:

- a user and a bulletin have one job at most, ever, and every stored one is that;
- a match names the signed-in devices whose own enabled rules hit the bulletin at the tick that
  filed it, and a job is aimed at the devices of such a match;
- a tick that commits leaves a bulletin whose matching failed without a match or a marker of its
  own, and files for each of the others what the rules it has read make of it. -/
theorem dispatch_exact (hrun : FreeRun (step cfg) Db.initial labels db) :
    ((db.filings.map Filing.key).Nodup ∧
      ∀ j job id, db.jobs.get j = some job → job.dedupeKey = .bulletin id →
        ∃ f ∈ db.filings, f.jobId = j ∧ f.key = (id, job.userId) ∧ f.job.payload = job.payload) ∧
    ((∀ id u m, db.userMatches.get (id, u) = some m → WasFiled cfg labels id u m) ∧
      ∀ f ∈ db.filings, f.Sound ∧ WasFiled cfg labels f.key.1 f.key.2 f.matched) ∧
    ∀ t k db', db.ticks.get t = some k → step cfg db (.commit t) = some db' → ∀ r ∈ k.bulletins,
      (r.1 ∈ k.failed → db'.runs r.1 = db.runs r.1 ∧
        ∀ u, (db'.userMatches.get (r.1, u)).isSome = (db.userMatches.get (r.1, u)).isSome) ∧
      (r.1 ∉ k.failed → db'.runs r.1 = true ∧ db'.bulletins.get r.1 = db.bulletins.get r.1 ∧
        ∀ u, db.userMatches.get (r.1, u) = none → db.deregistered u = false →
          ∀ deviceIds, (∃ m, db'.userMatches.get (r.1, u) = some m ∧
              m.deviceIds = some deviceIds) ↔
            ∃ v ∈ matchValues (k.rules.getD []) r.2, v.userId = u ∧ v.deviceIds = deviceIds) := by
  have hinv := dispatchInv_of_run hrun
  refine ⟨⟨hinv.committed.once, hinv.committed.stored⟩, ⟨?_, hinv.committed.sound⟩, ?_⟩
  · exact fun id u m hm => (hinv.committed.known id u m hm).2.2
  · intro t k db' hk hstep r hr
    obtain ⟨hphase, rfl⟩ := commit_of_step hk hstep
    exact ⟨commit_failed hinv hk hphase hr, commit_matched hinv hk hphase hr⟩

/-- One device has a rule that hits the one bulletin. -/
def oneHit : List Label :=
  [.writeRules (Table.empty.set 1 ⟨(1, 7), 0, ⟨none, ["csie"], [], .and, true⟩, 1, none⟩) (· = 7),
    .newBulletin ⟨.processed, false, none, some "csie", [], "Notice", none, none, ""⟩ false,
    .begin 10, .look 0, .lockNext 0, .lockNext 0, .readRules 0, .savepoint 0, .insertMatch 0,
    .finish 0, .lookMatches 0 [(1, 1)], .lockMatch 0, .lockMatch 0, .push 0, .commit 0]

/-- The device hears of the bulletin. -/
theorem dispatch_exact_of_oneHit :
    ∃ db, FreeRun (step ⟨10⟩) Db.initial oneHit db ∧
      (∃ f ∈ db.filings, f.key = (1, 1) ∧ f.matched.deviceIds = some [7] ∧ f.Sound) ∧
      (db.filings.map Filing.key).Nodup := by
  have hexec : ((exec (step ⟨10⟩) Db.initial oneHit).map fun db =>
      db.filings.map fun f => (f.key, f.matched.deviceIds)) = some [((1, 1), some [7])] := by
    decide +kernel
  obtain ⟨db, hdb, hfilings⟩ := Option.map_eq_some_iff.mp hexec
  have hrun := run_of_exec hdb
  obtain ⟨⟨honce, -⟩, ⟨-, hsound⟩, -⟩ := dispatch_exact hrun
  refine ⟨db, hrun, ?_, honce⟩
  obtain ⟨f, hf, hkey⟩ := List.mem_map.mp (hfilings ▸ List.mem_cons_self)
  obtain ⟨hkey, hdevices⟩ := Prod.mk.inj hkey
  exact ⟨f, hf, hkey, hdevices, (hsound f hf).1⟩

end TigerDuck.Bulletins.UserDispatch
