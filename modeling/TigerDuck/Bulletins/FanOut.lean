import TigerDuck.Bulletins.DeviceDispatch

/-!
# A device's pushes of a bulletin

Whatever order the ticks and the other writers run in, wherever a fan-out raises and whenever the
process stops, a row of `bulletin_dispatches` is told by the answers recorded for it, and a device
is pushed a bulletin no more often than its attempts and the faults allow.

The tick's invariant is `Hand`: the rows it has loaded are as it loaded them until it records
them, and the pending rows it has not loaded are those this fan-out has already tried.

- `Unsettled`, `Settles`, `Outcome`: what the recorded answers make of a row.
- `Tables`, `Hand`, `Inv`: what holds of the tables, of the rows in hand, and of every state.
- `inv_step`: every step keeps it.
-/

namespace TigerDuck.Bulletins.DeviceDispatch

open Relational Transition

variable {db db' : Db} {k : Tick} {l : Label} {labels : List Label} {id : BulletinId}
  {i j : DispatchId} {d : Dispatch} {rows : List Loaded} {row : Loaded} {result : SendResult}
  {ts : Time} {deviceId : String} {deviceIds : List String} {cs : List Classification}
  {c : Classification}

/-! ### What the recorded answers make of a row -/

/-- Answers after which a row is tried again. -/
def Unsettled (cs : List Classification) : Prop :=
  cs.length < MAX_DISPATCH_ATTEMPTS ∧ ∀ c ∈ cs, c = .transient

/-- Answers of which none but the last can have settled the row. -/
def Settles (cs : List Classification) : Prop :=
  cs.length ≤ MAX_DISPATCH_ATTEMPTS ∧ ∀ c ∈ cs.dropLast, c = .transient

/-- What a row's recorded answers make of it. -/
def Outcome (d : Dispatch) (cs : List Classification) : Prop :=
  d.attempts = cs.length ∧
    match d.status with
    | .pending => Unsettled cs
    | .sent => ∃ init, Unsettled init ∧ cs = init ++ [.sent]
    | .failed => cs.length = MAX_DISPATCH_ATTEMPTS ∧ ∀ c ∈ cs, c = .transient
    -- A device without a token is cancelled with no answer of its own.
    | .cancelled => Unsettled cs ∨ ∃ init, Unsettled init ∧ cs = init ++ [.badToken]

theorem Unsettled.nil : Unsettled [] := ⟨by decide, fun _ h => absurd h List.not_mem_nil⟩

theorem Unsettled.settles (h : Unsettled cs) : Settles cs :=
  ⟨h.1.le, fun c hc => h.2 c (List.dropLast_subset cs hc)⟩

theorem Unsettled.settles_append (h : Unsettled cs) : Settles (cs ++ [c]) := by
  refine ⟨?_, ?_⟩
  · rw [List.length_append, List.length_singleton]
    exact h.1
  · rw [List.dropLast_concat]
    exact h.2

/-- At most one of the answers accepts the push. -/
theorem Settles.accepted (h : Settles cs) : (cs.filter (· = .sent)).length ≤ 1 := by
  rcases List.eq_nil_or_concat cs with rfl | ⟨init, c, rfl⟩
  · exact Nat.zero_le 1
  · rw [List.concat_eq_append] at h ⊢
    have hnone : init.filter (· = .sent) = [] := by
      rw [List.filter_eq_nil_iff]
      intro c' hc'
      have := h.2 c' (by rwa [List.dropLast_concat])
      simp [this]
    rw [List.filter_append, hnone, List.nil_append]
    exact List.length_filter_le _ [c]

/-- No answer of a row that is tried again has accepted the push. -/
theorem Unsettled.accepted (h : Unsettled cs) : cs.filter (· = .sent) = [] := by
  rw [List.filter_eq_nil_iff]
  intro c hc
  simp [h.2 c hc]

namespace Loaded

@[simp]
theorem outcome_bulletinId : (row.outcome result ts d).bulletinId = d.bulletinId := by
  unfold outcome
  dsimp only
  split
  · rfl
  · rfl
  · split <;> rfl

@[simp]
theorem outcome_deviceId : (row.outcome result ts d).deviceId = d.deviceId := by
  unfold outcome
  dsimp only
  split
  · rfl
  · rfl
  · split <;> rfl

@[simp]
theorem outcome_fanouts : (row.outcome result ts d).fanouts = d.fanouts := by
  unfold outcome
  dsimp only
  split
  · rfl
  · rfl
  · split <;> rfl

/-- The attempts of a recorded row are those it was loaded with and one more. -/
@[simp]
theorem outcome_attempts : (row.outcome result ts d).attempts = row.dispatch.attempts + 1 := by
  unfold outcome
  dsimp only
  split
  · rfl
  · rfl
  · split <;> rfl

/-- A recorded row is told by its answers, the new one among them. -/
theorem outcome_spec (hunsettled : Unsettled cs) (hattempts : row.dispatch.attempts = cs.length)
    (hpending : d.status = .pending) :
    Outcome (row.outcome result ts d) (cs ++ [row.classification result]) := by
  refine ⟨by simp [hattempts], ?_⟩
  unfold outcome
  dsimp only
  cases hc : row.classification result with
  | sent => exact ⟨cs, hunsettled, rfl⟩
  | badToken => exact Or.inr ⟨cs, hunsettled, rfl⟩
  | transient =>
    have hall : ∀ c ∈ cs ++ [.transient], c = Classification.transient := by
      intro c hmem
      rcases List.mem_append.mp hmem with hmem | hmem
      · exact hunsettled.2 c hmem
      · exact List.mem_singleton.mp hmem
    have hlen : (cs ++ [Classification.transient]).length = row.dispatch.attempts + 1 := by
      rw [List.length_append, hattempts, List.length_singleton]
    by_cases hlast : row.dispatch.attempts + 1 ≥ MAX_DISPATCH_ATTEMPTS
    · have hlt := hunsettled.1
      rw [if_pos hlast]
      exact ⟨by omega, hall⟩
    · rw [if_neg hlast, hpending]
      exact ⟨by omega, hall⟩

end Loaded

/-! ### What holds of the tables -/

/-- The recorded answers of a row. -/
def Db.told (db : Db) (i : DispatchId) : List Classification :=
  (db.recorded.filter fun h => h.dispatchId = i).map Handing.classification

/-- What holds of the committed tables. -/
structure Tables (db : Db) : Prop where
  below : ∀ id, (db.bulletins.get id).isSome = true → id < db.nextBulletin
  /-- A row is of a bulletin and a device that are there. -/
  dispatch : ∀ i d, db.dispatches.get i = some d →
    db.filed.get i = some (d.bulletinId, d.deviceId) ∧
      (db.bulletins.get d.bulletinId).isSome = true ∧ (db.devices.get d.deviceId).isSome = true
  filedBelow : ∀ i id deviceId, db.filed.get i = some (id, deviceId) →
    i < db.nextDispatch ∧ id < db.nextBulletin
  /-- A device has had one row of a bulletin, ever. -/
  filedOnce : ∀ i j p, db.filed.get i = some p → db.filed.get j = some p → i = j
  /-- A row goes with its bulletin. -/
  alive : ∀ i id deviceId, db.filed.get i = some (id, deviceId) →
    (db.bulletins.get id).isSome = true → (db.dispatches.get i).isSome = true
  outcome : ∀ i d, db.dispatches.get i = some d → Outcome d (db.told i)
  settles : ∀ i, Settles (db.told i)
  ledger : ∀ h ∈ db.recorded ++ db.lost,
    db.filed.get h.dispatchId = some (h.bulletinId, h.deviceId)
  rounds : ∀ i d, db.dispatches.get i = some d → d.status = .pending → d.fanouts ≤ d.attempts

/-- A row as the tick has loaded it. -/
structure InHand (db : Db) (id : BulletinId) (row : Loaded) : Prop where
  filed : db.filed.get row.id = some (id, row.dispatch.deviceId)
  bulletin : row.dispatch.bulletinId = id
  pending : row.dispatch.status = .pending
  unsettled : Unsettled (db.told row.id)
  attempts : row.dispatch.attempts = (db.told row.id).length
  /-- Nobody else writes it. -/
  same : ∀ d, db.dispatches.get row.id = some d → d = row.dispatch

/-- The rows a fan-out has still to record. -/
structure Hand (db : Db) (id : BulletinId) (rows : List Loaded) : Prop where
  nodup : (rows.map Loaded.id).Nodup
  each : ∀ row ∈ rows, InHand db id row
  /-- The other pending rows have been tried by this fan-out. -/
  tried : ∀ i d, db.dispatches.get i = some d → d.bulletinId = id → d.status = .pending →
    i ∉ rows.map Loaded.id → d.fanouts < d.attempts

/-- What every row's column of answers shows of a row never recorded. -/
theorem Tables.told_eq_nil (h : Tables db) (hnone : db.filed.get i = none) : db.told i = [] := by
  unfold Db.told
  rw [List.map_eq_nil_iff, List.filter_eq_nil_iff]
  intro hd hmem hid
  have hfiled := h.ledger hd (List.mem_append_left _ hmem)
  rw [of_decide_eq_true hid, hnone] at hfiled
  cases hfiled

theorem told_recordOne (db : Db) (ts : Time) (row : Loaded) (result : SendResult)
    (i : DispatchId) :
    (db.recordOne ts (row, result)).told i =
      if row.id = i then db.told i ++ [row.classification result] else db.told i := by
  show ((db.recorded ++ [row.handing result ts]).filter _).map _ = _
  rw [List.filter_append, List.map_append]
  by_cases hi : row.id = i
  · rw [if_pos hi, List.filter_cons_of_pos (by simp [Loaded.handing, hi])]
    rfl
  · rw [if_neg hi, List.filter_cons_of_neg (by simp [Loaded.handing, hi])]
    simp [Db.told]

/-! ### Filing -/

/-- The devices of a fan-out are registered. -/
theorem Db.devices_of_mem_resolve {bulletin : Bulletin} (h : deviceId ∈ db.resolve bulletin) :
    (db.devices.get deviceId).isSome = true := by
  unfold Db.resolve at h
  split at h
  · unfold resolveTargetDeviceIds at h
    split at h
    · cases h
    · rw [List.mem_insertionSort, List.mem_map] at h
      obtain ⟨⟨_, device⟩, hmem, rfl⟩ := h
      have hrow := List.mem_of_mem_filter hmem
      rw [(Table.get_eq_some_iff ..).mpr hrow]
      rfl
  · rw [matchDeviceIds, List.mem_insertionSort, List.mem_filter, List.mem_eraseDups,
      List.mem_map] at h
    obtain ⟨⟨rule, hrule, rfl⟩, _⟩ := h
    have hany := (Bool.and_eq_true_iff.mp (List.mem_filter.mp hrule).2).2
    cases hdevice : db.devices.get rule.deviceId with
    | none => rw [hdevice] at hany; cases hany
    | some device => rfl

/-- A device has its row of a bulletin. -/
def HasRow (db : Db) (id : BulletinId) (deviceId : String) : Prop :=
  ∃ i d, db.dispatches.get i = some d ∧ d.bulletinId = id ∧ d.deviceId = deviceId

/-- What inserting rows leaves. -/
structure Grows (id : BulletinId) (db db' : Db) : Prop where
  tables : Tables db'
  bulletins : db'.bulletins = db.bulletins
  nextBulletin : db'.nextBulletin = db.nextBulletin
  devices : db'.devices = db.devices
  recorded : db'.recorded = db.recorded
  lost : db'.lost = db.lost
  kept : ∀ i d, db.dispatches.get i = some d → db'.dispatches.get i = some d
  nextDispatch : db.nextDispatch ≤ db'.nextDispatch
  new : ∀ i d, db'.dispatches.get i = some d →
    db.dispatches.get i = some d ∨ (d.bulletinId = id ∧ db.nextDispatch ≤ i)

theorem Tables.fileOne (h : Tables db) (hthere : (db.bulletins.get id).isSome = true)
    (hdevice : (db.devices.get deviceId).isSome = true) :
    Grows id db (db.fileOne id deviceId) ∧ HasRow (db.fileOne id deviceId) id deviceId := by
  rcases db.fileOne_cases id deviceId with ⟨hhas, heq⟩ | ⟨hhas, heq⟩
  · rw [heq]
    exact ⟨⟨h, rfl, rfl, rfl, rfl, rfl, fun _ _ hd => hd, le_rfl, fun _ _ hd => Or.inl hd⟩,
      Db.hasDispatch_iff.mp hhas⟩
  rw [heq]
  have hfreshFiled : db.filed.get db.nextDispatch = none := by
    cases hp : db.filed.get db.nextDispatch with
    | none => rfl
    | some p => exact absurd (h.filedBelow _ p.1 p.2 hp).1 (Nat.lt_irrefl _)
  have hfresh : db.dispatches.get db.nextDispatch = none := by
    cases hd : db.dispatches.get db.nextDispatch with
    | none => rfl
    | some d => rw [(h.dispatch _ d hd).1] at hfreshFiled; cases hfreshFiled
  -- The pair has never been filed: its row would still be there.
  have hnever : ∀ i, db.filed.get i ≠ some (id, deviceId) := by
    intro i hi
    obtain ⟨d, hd⟩ := Option.isSome_iff_exists.mp (h.alive i id deviceId hi hthere)
    have hpair := (h.dispatch i d hd).1
    rw [hi] at hpair
    obtain ⟨rfl, rfl⟩ := Prod.mk.inj (Option.some.inj hpair)
    rw [Db.hasDispatch_iff.mpr ⟨i, d, hd, rfl, rfl⟩] at hhas
    cases hhas
  refine ⟨{ bulletins := rfl, nextBulletin := rfl, devices := rfl, recorded := rfl, lost := rfl,
            kept := ?kept, nextDispatch := Nat.le_succ _, new := ?new,
            tables := ⟨h.below, ?dispatch, ?filedBelow, ?filedOnce, ?alive, ?outcome, h.settles,
              ?ledger, ?rounds⟩ }, ?row⟩
  case kept =>
    intro i d hd
    have hne : i ≠ db.nextDispatch := by
      rintro rfl
      rw [hfresh] at hd
      cases hd
    rw [Table.get_set, if_neg hne, hd]
  case new =>
    intro i d hd
    rw [Table.get_set] at hd
    split at hd
    next hi =>
      cases hd
      exact Or.inr ⟨rfl, hi.ge⟩
    next => exact Or.inl hd
  case dispatch =>
    intro i d hd
    rw [Table.get_set] at hd ⊢
    split at hd
    next hi =>
      cases hd
      rw [if_pos hi]
      exact ⟨rfl, hthere, hdevice⟩
    next hi =>
      rw [if_neg hi]
      exact h.dispatch i d hd
  case filedBelow =>
    intro i id' deviceId' hi
    rw [Table.get_set] at hi
    split at hi
    next heqi =>
      cases hi
      exact ⟨heqi ▸ Nat.lt_succ_self _, h.below _ hthere⟩
    next =>
      obtain ⟨hlt, hbelow⟩ := h.filedBelow i id' deviceId' hi
      exact ⟨Nat.lt_succ_of_lt hlt, hbelow⟩
  case filedOnce =>
    intro i j p hi hj
    rw [Table.get_set] at hi hj
    split at hi <;> split at hj
    next h₁ h₂ => rw [h₁, h₂]
    next => cases hi; exact absurd hj (hnever j)
    next => cases hj; exact absurd hi (hnever i)
    next => exact h.filedOnce i j p hi hj
  case alive =>
    intro i id' deviceId' hi hsome
    rw [Table.get_set] at hi ⊢
    split at hi
    next heqi => rw [if_pos heqi]; rfl
    next hne => rw [if_neg hne]; exact h.alive i id' deviceId' hi hsome
  case outcome =>
    intro i d hd
    rw [Table.get_set] at hd
    split at hd
    next heqi =>
      cases hd
      have hnil : db.told i = [] := h.told_eq_nil (heqi ▸ hfreshFiled)
      show Outcome _ (db.told i)
      rw [hnil]
      exact ⟨rfl, Unsettled.nil⟩
    next => exact h.outcome i d hd
  case ledger =>
    intro hd hmem
    have hfiled := h.ledger hd hmem
    have hne : hd.dispatchId ≠ db.nextDispatch := by
      intro heqi
      rw [heqi, hfreshFiled] at hfiled
      cases hfiled
    rw [Table.get_set, if_neg hne, hfiled]
  case rounds =>
    intro i d hd hpending
    rw [Table.get_set] at hd
    split at hd
    · cases hd
      exact le_rfl
    · exact h.rounds i d hd hpending
  · exact ⟨db.nextDispatch, _, by rw [Table.get_set, if_pos rfl], rfl, rfl⟩

theorem Grows.trans {db'' : Db} (h : Grows id db db') (h' : Grows id db' db'') :
    Grows id db db'' where
  tables := h'.tables
  bulletins := h'.bulletins.trans h.bulletins
  nextBulletin := h'.nextBulletin.trans h.nextBulletin
  devices := h'.devices.trans h.devices
  recorded := h'.recorded.trans h.recorded
  lost := h'.lost.trans h.lost
  kept i d hd := h'.kept i d (h.kept i d hd)
  nextDispatch := h.nextDispatch.trans h'.nextDispatch
  new i d hd := (h'.new i d hd).elim (h.new i d) fun hnew =>
    Or.inr ⟨hnew.1, h.nextDispatch.trans hnew.2⟩

theorem HasRow.grows {id' : BulletinId} (h : HasRow db id' deviceId) (hgrows : Grows id db db') :
    HasRow db' id' deviceId := by
  obtain ⟨i, d, hd, hpair⟩ := h
  exact ⟨i, d, hgrows.kept i d hd, hpair⟩

/-- Once the rows are inserted every device has its own. -/
theorem Tables.fileAll (h : Tables db)
    (hthere : deviceIds ≠ [] → (db.bulletins.get id).isSome = true)
    (hdevices : ∀ deviceId ∈ deviceIds, (db.devices.get deviceId).isSome = true) :
    Grows id db (db.fileAll id deviceIds) ∧
      ∀ deviceId ∈ deviceIds, HasRow (db.fileAll id deviceIds) id deviceId := by
  induction deviceIds generalizing db with
  | nil =>
    exact ⟨⟨h, rfl, rfl, rfl, rfl, rfl, fun _ _ hd => hd, le_rfl, fun _ _ hd => Or.inl hd⟩,
      fun _ hmem => absurd hmem List.not_mem_nil⟩
  | cons deviceId rest ih =>
    have hsome := hthere (List.cons_ne_nil _ _)
    obtain ⟨hone, hrow⟩ := h.fileOne hsome (hdevices deviceId List.mem_cons_self)
    obtain ⟨hrest, hrows⟩ := ih hone.tables
      (fun _ => by rw [hone.bulletins]; exact hsome)
      (fun deviceId' hmem => by
        rw [hone.devices]
        exact hdevices deviceId' (List.mem_cons_of_mem _ hmem))
    refine ⟨hone.trans hrest, fun deviceId' hmem => ?_⟩
    rcases List.mem_cons.mp hmem with rfl | hmem
    · exact hrow.grows hrest
    · exact hrows deviceId' hmem

/-! ### Recording -/

theorem isSome_modify {κ α : Type} [DecidableEq κ] {t : Table κ α} {f : κ → α → α} (k : κ) :
    ((t.modify f).get k).isSome = (t.get k).isSome := by
  rw [Table.get_modify, Option.isSome_map]

/-- What a tick has in hand depends on the answers recorded and on the rows that are left. -/
theorem Hand.of_kept (h : Hand db id rows) (hrecorded : db'.recorded = db.recorded)
    (hfiled : db'.filed = db.filed)
    (hrows : ∀ i d, db'.dispatches.get i = some d → db.dispatches.get i = some d) :
    Hand db' id rows where
  nodup := h.nodup
  each row hrow :=
    have hin := h.each row hrow
    have htold : db'.told row.id = db.told row.id := by rw [Db.told, Db.told, hrecorded]
    { filed := by rw [hfiled]; exact hin.filed
      bulletin := hin.bulletin
      pending := hin.pending
      unsettled := by rw [htold]; exact hin.unsettled
      attempts := by rw [htold]; exact hin.attempts
      same := fun d hd => hin.same d (hrows _ d hd) }
  tried i d hd := h.tried i d (hrows i d hd)

/-- The rows in hand in another order. -/
theorem Hand.perm {rows' : List Loaded} (h : Hand db id rows) (hperm : rows.Perm rows') :
    Hand db id rows' where
  nodup := (hperm.map Loaded.id).nodup_iff.mp h.nodup
  each row hrow := h.each row (hperm.mem_iff.mpr hrow)
  tried i d hd hbulletin hpending hnot :=
    h.tried i d hd hbulletin hpending fun hmem => hnot ((hperm.map Loaded.id).mem_iff.mp hmem)

/-- A row after another one's `UPDATE`, or its own. -/
theorem get_modify_one {f : Dispatch → Dispatch} (i' : DispatchId) :
    (db.dispatches.modify fun i d => if i = i' then f d else d).get i = some d ↔
      (i = i' ∧ ∃ d₀, db.dispatches.get i = some d₀ ∧ f d₀ = d) ∨
        (i ≠ i' ∧ db.dispatches.get i = some d) := by
  rw [Table.get_modify, Option.map_eq_some_iff]
  by_cases hi : i = i'
  · simp [hi]
  · simp [hi]

/-- An `UPDATE` of one row in hand that tells it by its answers. -/
structure Written (db db' : Db) (row : Loaded) (f : Dispatch → Dispatch) : Prop where
  bulletins : db'.bulletins = db.bulletins
  nextBulletin : db'.nextBulletin = db.nextBulletin
  nextDispatch : db'.nextDispatch = db.nextDispatch
  filed : db'.filed = db.filed
  lost : db'.lost = db.lost
  devices : ∀ deviceId, (db'.devices.get deviceId).isSome = (db.devices.get deviceId).isSome
  dispatches : db'.dispatches = db.dispatches.modify fun i d => if i = row.id then f d else d
  pair : ∀ d, (f d).bulletinId = d.bulletinId ∧ (f d).deviceId = d.deviceId
  told : ∀ i, i ≠ row.id → db'.told i = db.told i
  outcome : Outcome (f row.dispatch) (db'.told row.id)
  settles : Settles (db'.told row.id)
  ledger : ∀ h ∈ db'.recorded, h ∈ db.recorded ∨
    (h.dispatchId = row.id ∧ h.bulletinId = row.dispatch.bulletinId ∧
      h.deviceId = row.dispatch.deviceId)
  /-- The row is not tried again in this fan-out. -/
  tried : (f row.dispatch).status = .pending → row.dispatch.attempts < (f row.dispatch).attempts
  rounds : (f row.dispatch).fanouts = row.dispatch.fanouts

theorem Written.tables {f : Dispatch → Dispatch} (hw : Written db db' row f) (h : Tables db)
    (hin : InHand db id row) : Tables db' := by
  have hget : ∀ i d, db'.dispatches.get i = some d →
      (i = row.id ∧ db.dispatches.get i = some row.dispatch ∧ f row.dispatch = d) ∨
        (i ≠ row.id ∧ db.dispatches.get i = some d) := by
    intro i d hd
    rw [hw.dispatches, get_modify_one] at hd
    rcases hd with ⟨rfl, d₀, hd₀, hf⟩ | hother
    · obtain rfl := hin.same d₀ hd₀
      exact Or.inl ⟨rfl, hd₀, hf⟩
    · exact Or.inr hother
  refine
    { below := by rw [hw.bulletins, hw.nextBulletin]; exact h.below
      filedBelow := by rw [hw.filed, hw.nextDispatch, hw.nextBulletin]; exact h.filedBelow
      filedOnce := by rw [hw.filed]; exact h.filedOnce
      dispatch := ?_, alive := ?_, outcome := ?_, settles := ?_, ledger := ?_, rounds := ?_ }
  · intro i d hd
    rw [hw.filed, hw.bulletins, hw.devices]
    rcases hget i d hd with ⟨rfl, hd₀, rfl⟩ | ⟨_, hd⟩
    · rw [(hw.pair _).1, (hw.pair _).2]
      exact h.dispatch _ _ hd₀
    · exact h.dispatch i d hd
  · intro i id' deviceId' hi hsome
    rw [hw.filed] at hi
    rw [hw.bulletins] at hsome
    rw [hw.dispatches, Table.get_modify, Option.isSome_map]
    exact h.alive i id' deviceId' hi hsome
  · intro i d hd
    rcases hget i d hd with ⟨rfl, _, rfl⟩ | ⟨hne, hd⟩
    · exact hw.outcome
    · rw [hw.told i hne]
      exact h.outcome i d hd
  · intro i
    by_cases hi : i = row.id
    · rw [hi]
      exact hw.settles
    · rw [hw.told i hi]
      exact h.settles i
  · intro hd hmem
    rw [hw.lost] at hmem
    rw [hw.filed]
    rcases List.mem_append.mp hmem with hrec | hlost
    · rcases hw.ledger hd hrec with hold | ⟨hid, hbulletin, hdevice⟩
      · exact h.ledger hd (List.mem_append_left _ hold)
      · rw [hid, hbulletin, hdevice, hin.bulletin]
        exact hin.filed
    · exact h.ledger hd (List.mem_append_right _ hlost)
  · intro i d hd hpending
    rcases hget i d hd with ⟨rfl, hd₀, rfl⟩ | ⟨_, hd⟩
    · have hle := h.rounds _ _ hd₀ hin.pending
      have hlt := hw.tried hpending
      rw [hw.rounds]
      omega
    · exact h.rounds i d hd hpending

theorem Written.hand {f : Dispatch → Dispatch} (hw : Written db db' row f) (h : Tables db)
    (hhand : Hand db id (row :: rows)) : Hand db' id rows := by
  have hin := hhand.each row List.mem_cons_self
  obtain ⟨hfresh, hnodup⟩ := List.nodup_cons.mp hhand.nodup
  refine ⟨hnodup, fun row' hrow' => ?_, fun i d hd hbulletin hpending hnot => ?_⟩
  · have hin' := hhand.each row' (List.mem_cons_of_mem _ hrow')
    have hne : row'.id ≠ row.id := fun heq => hfresh (heq ▸ List.mem_map_of_mem hrow')
    refine ⟨by rw [hw.filed]; exact hin'.filed, hin'.bulletin, hin'.pending,
      by rw [hw.told _ hne]; exact hin'.unsettled, by rw [hw.told _ hne]; exact hin'.attempts,
      fun d hd => ?_⟩
    rw [hw.dispatches, get_modify_one] at hd
    rcases hd with ⟨heq, _⟩ | ⟨_, hd⟩
    · exact absurd heq hne
    · exact hin'.same d hd
  · rw [hw.dispatches, get_modify_one] at hd
    rcases hd with ⟨rfl, d₀, hd₀, rfl⟩ | ⟨hne, hd⟩
    -- The row that has just been tried.
    · obtain rfl := hin.same d₀ hd₀
      have hle := h.rounds _ _ hd₀ hin.pending
      have hlt := hw.tried hpending
      rw [hw.rounds]
      omega
    · refine hhand.tried i d hd hbulletin hpending fun hmem => ?_
      rcases List.mem_cons.mp hmem with heq | hmem
      · exact hne heq
      · exact hnot hmem

theorem written_recordOne (hin : InHand db id row) (ts : Time) (result : SendResult) :
    Written db (db.recordOne ts (row, result)) row (row.outcome result ts) where
  bulletins := rfl
  nextBulletin := rfl
  nextDispatch := rfl
  filed := rfl
  lost := rfl
  devices deviceId := by
    show ((if row.classification result = .badToken then Db.forgetDeadToken db.devices row
      else db.devices).get deviceId).isSome = _
    split
    · rw [Db.forgetDeadToken, Table.get_modify, Option.isSome_map]
    · rfl
  dispatches := rfl
  pair d := ⟨Loaded.outcome_bulletinId, Loaded.outcome_deviceId⟩
  told i hne := by rw [told_recordOne, if_neg (Ne.symm hne)]
  outcome := by
    rw [told_recordOne, if_pos rfl]
    exact Loaded.outcome_spec hin.unsettled hin.attempts hin.pending
  settles := by
    rw [told_recordOne, if_pos rfl]
    exact hin.unsettled.settles_append
  ledger h hmem := by
    rcases List.mem_append.mp hmem with hmem | hmem
    · exact Or.inl hmem
    · obtain rfl := List.mem_singleton.mp hmem
      exact Or.inr ⟨rfl, rfl, rfl⟩
  tried _ := by
    rw [Loaded.outcome_attempts]
    omega
  rounds := Loaded.outcome_fanouts

theorem written_cancelDispatch (hin : InHand db id row) :
    Written db (db.cancelDispatch row) row
      (fun d => { d with status := .cancelled, lastError := some row.noToken }) where
  bulletins := rfl
  nextBulletin := rfl
  nextDispatch := rfl
  filed := rfl
  lost := rfl
  devices _ := rfl
  dispatches := rfl
  pair _ := ⟨rfl, rfl⟩
  told _ _ := rfl
  outcome := ⟨hin.attempts, Or.inl hin.unsettled⟩
  settles := hin.unsettled.settles
  ledger _ hmem := Or.inl hmem
  tried h := by cases h
  rounds := rfl

/-- What the recording of a batch leaves but for its rows. -/
structure Recorded (ts : Time) (answers : List (Loaded × SendResult)) (db db' : Db) : Prop where
  bulletins : db'.bulletins = db.bulletins
  nextBulletin : db'.nextBulletin = db.nextBulletin
  filed : db'.filed = db.filed
  lost : db'.lost = db.lost
  devices : ∀ deviceId, (db'.devices.get deviceId).isSome = (db.devices.get deviceId).isSome
  recorded : db'.recorded = db.recorded ++ answers.map fun a => a.1.handing a.2 ts
  others : ∀ i, i ∉ answers.map (fun a => a.1.id) →
    db'.dispatches.get i = db.dispatches.get i
  nextDispatch : db'.nextDispatch = db.nextDispatch
  there : ∀ i, (db'.dispatches.get i).isSome = (db.dispatches.get i).isSome
  rows : ∀ i d, db.dispatches.get i = some d →
    ∃ d', db'.dispatches.get i = some d' ∧ d'.bulletinId = d.bulletinId ∧
      d'.deviceId = d.deviceId ∧ d'.fanouts = d.fanouts

/-- A batch is recorded row by row. -/
theorem Hand.recordAll {answers : List (Loaded × SendResult)} (h : Tables db)
    (hhand : Hand db id (answers.map Prod.fst ++ rows)) (ts : Time) :
    Tables (db.recordAll ts answers) ∧ Hand (db.recordAll ts answers) id rows ∧
      Recorded ts answers db (db.recordAll ts answers) := by
  induction answers generalizing db with
  | nil =>
    exact ⟨h, hhand, rfl, rfl, rfl, rfl, fun _ => rfl, (List.append_nil _).symm, fun _ _ => rfl,
      rfl, fun _ => rfl, fun i d hd => ⟨d, hd, rfl, rfl, rfl⟩⟩
  | cons answer rest ih =>
    obtain ⟨row, result⟩ := answer
    have hin := hhand.each row (List.mem_append_left _ List.mem_cons_self)
    have hw := written_recordOne hin ts result
    obtain ⟨htables, hrows, hrest⟩ := ih (hw.tables h hin) (hw.hand h hhand)
    refine ⟨htables, hrows, hrest.bulletins, hrest.nextBulletin, hrest.filed, hrest.lost,
      fun deviceId => (hrest.devices deviceId).trans (hw.devices deviceId), ?_, ?_,
      hrest.nextDispatch, fun i => ?_, ?_⟩
    · show (Db.recordAll _ ts rest).recorded = _
      rw [hrest.recorded]
      show (db.recorded ++ [row.handing result ts]) ++ _ = _
      rw [List.append_assoc]
      rfl
    · intro i hnot
      rw [List.map_cons, List.mem_cons, not_or] at hnot
      show (Db.recordAll _ ts rest).dispatches.get i = _
      rw [hrest.others i hnot.2, hw.dispatches, Table.get_modify]
      cases db.dispatches.get i with
      | none => rfl
      | some d => rw [Option.map_some, if_neg hnot.1]
    · refine (hrest.there i).trans ?_
      rw [hw.dispatches]
      exact isSome_modify i
    · intro i d hd
      have hone : ∃ d', (db.recordOne ts (row, result)).dispatches.get i = some d' ∧
          d'.bulletinId = d.bulletinId ∧ d'.deviceId = d.deviceId ∧ d'.fanouts = d.fanouts := by
        rw [hw.dispatches, Table.get_modify, hd]
        refine ⟨_, rfl, ?_⟩
        dsimp only
        split
        · exact ⟨Loaded.outcome_bulletinId, Loaded.outcome_deviceId, Loaded.outcome_fanouts⟩
        · exact ⟨rfl, rfl, rfl⟩
      obtain ⟨d', hd', hb', hv', hf'⟩ := hone
      obtain ⟨d'', hd'', hb'', hv'', hf''⟩ := hrest.rows i d' hd'
      exact ⟨d'', hd'', hb''.trans hb', hv''.trans hv', hf''.trans hf'⟩

/-! ### Loading -/

/-- A pending row of a bulletin is loaded, with its device and its bulletin. -/
theorem Tables.load_isSome (h : Tables db) (hd : db.dispatches.get i = some d) :
    ∃ row, db.load i = some row ∧ row.id = i ∧ row.dispatch = d := by
  obtain ⟨_, hbulletin, hdevice⟩ := h.dispatch i d hd
  obtain ⟨bulletin, hb⟩ := Option.isSome_iff_exists.mp hbulletin
  obtain ⟨device, hv⟩ := Option.isSome_iff_exists.mp hdevice
  exact ⟨⟨i, d, device, bulletin⟩, Db.load_eq_some_iff.mpr ⟨rfl, hd, hv, hb⟩, rfl, rfl⟩

theorem loaded_ids_sublist (db : Db) (order : List DispatchId) :
    ((order.filterMap db.load).map Loaded.id).Sublist order := by
  induction order with
  | nil => exact List.Sublist.slnil
  | cons i order ih =>
    cases hload : db.load i with
    | none =>
      rw [List.filterMap_cons_none hload]
      exact ih.cons i
    | some row =>
      rw [List.filterMap_cons_some hload, List.map_cons, (Db.load_eq_some_iff.mp hload).1]
      exact ih.cons_cons i

/-- The rows a fan-out loads: every pending one of its bulletin, as it is. -/
theorem Tables.hand (h : Tables db) {order : List DispatchId}
    (horder : order.Perm (db.pendingIds id)) : Hand db id (order.filterMap db.load) where
  nodup := (loaded_ids_sublist db order).nodup (horder.nodup_iff.mpr (db.pendingIds_nodup id))
  each row hrow := by
    obtain ⟨i, hi, hload⟩ := List.mem_filterMap.mp hrow
    obtain ⟨rfl, hget, _, _⟩ := Db.load_eq_some_iff.mp hload
    obtain ⟨d, hd, hbulletin, hpending⟩ := Db.mem_pendingIds.mp (horder.mem_iff.mp hi)
    obtain rfl := Option.some.inj (hget.symm.trans hd)
    obtain ⟨hattempts, hstatus⟩ := h.outcome _ _ hget
    rw [hpending] at hstatus
    exact
      { filed := hbulletin ▸ (h.dispatch _ _ hget).1
        bulletin := hbulletin
        pending := hpending
        unsettled := hstatus
        attempts := hattempts
        same := fun d hd => Option.some.inj (hd.symm.trans hget) }
  tried i d hd hbulletin hpending hnot := by
    obtain ⟨row, hload, hid, _⟩ := h.load_isSome hd
    refine absurd (List.mem_map.mpr ⟨row, List.mem_filterMap.mpr ⟨i, ?_, hload⟩, hid⟩) hnot
    exact horder.mem_iff.mpr (Db.mem_pendingIds.mpr ⟨d, hd, hbulletin, hpending⟩)

/-- The batches and the rest of the rows are the rows. -/
theorem batched_perm (pending : List Loaded) :
    pending.Perm ((batched FCM_BATCH (pending.filter Loaded.isAndroid)).flatten ++
      pending.filter fun row => !row.isAndroid) := by
  rw [flatten_batched (by decide)]
  exact (List.filter_append_perm Loaded.isAndroid pending).symm

/-! ### Where a tick stands -/

/-- A fan-out resolves a bulletin, as it has read it, to these devices. -/
def ResolvedAt (id : BulletinId) (deviceIds : List String) (db : Db) (l : Label) : Prop :=
  l = .resolveDevices ∧ ∃ k bulletin, db.tick = some k ∧ k.phase = .resolving id bulletin ∧
    deviceIds = db.resolve bulletin

/-- The devices some fan-out of a bulletin has found have their rows, while it is there. -/
def Filed (labels : List Label) (db : Db) (id : BulletinId) : Prop :=
  id < db.nextBulletin ∧ ∃ deviceIds,
    Ever step (ResolvedAt id deviceIds) Db.initial labels ∧
      ((db.bulletins.get id).isSome = true → ∀ deviceId ∈ deviceIds, HasRow db id deviceId)

/-- What holds where a tick stands. -/
def Stage (labels : List Label) (db : Db) : Phase → Prop
  | .next => True
  | .resolving id _ => id < db.nextBulletin
  | .filing id deviceIds => id < db.nextBulletin ∧
      Ever step (ResolvedAt id deviceIds) Db.initial labels ∧
        ∀ deviceId ∈ deviceIds, (db.devices.get deviceId).isSome = true
  | .filed id => Filed labels db id
  | .sending id chunks rows => Filed labels db id ∧ Hand db id (chunks.flatten ++ rows)
  | .answered id answers chunks rows => Filed labels db id ∧
      Hand db id (answers.map Prod.fst ++ (chunks.flatten ++ rows))
  | .failing _ => True

/-- A bulletin has not been stamped. -/
def Unstamped (db : Db) (id : BulletinId) : Prop :=
  ∀ b, db.bulletins.get id = some b → b.notifiedAt = none

/-- What holds of a tick under way. -/
structure TickInv (labels : List Label) (db : Db) (k : Tick) : Prop where
  nodup : k.todo.Nodup
  apart : ∀ id, k.phase.bulletin = some id → id ∉ k.todo ∧ Unstamped db id
  waiting : ∀ id ∈ k.todo, Unstamped db id
  stage : Stage labels db k.phase

/-- The fan-out of a bulletin is over. -/
structure Stamped (labels : List Label) (db : Db) (id : BulletinId) : Prop where
  settled : ∀ i d, db.dispatches.get i = some d → d.bulletinId = id → d.status ≠ .pending
  filed : Filed labels db id

/-- What holds of every state that can be reached. -/
structure Inv (labels : List Label) (db : Db) : Prop where
  tables : Tables db
  tick : ∀ k, db.tick = some k → TickInv labels db k
  stamped : ∀ id b ts, db.bulletins.get id = some b → b.notifiedAt = some ts →
    Stamped labels db id

theorem Inv.stage_of_phase {phase : Phase} (hinv : Inv labels db) (htick : db.tick = some k)
    (hphase : k.phase = phase) : Stage labels db phase := by
  rw [← hphase]
  exact (hinv.tick k htick).stage

/-! ### What a step leaves -/

/-- What every step leaves of the rows. -/
structure Kept (db db' : Db) : Prop where
  nextBulletin : db.nextBulletin ≤ db'.nextBulletin
  /-- A bulletin that has been deleted does not come back. -/
  bulletins : ∀ id < db.nextBulletin, (db'.bulletins.get id).isSome = true →
    (db.bulletins.get id).isSome = true
  devices : ∀ deviceId, (db.devices.get deviceId).isSome = true →
    (db'.devices.get deviceId).isSome = true
  rows : ∀ i d, db.dispatches.get i = some d → (db'.bulletins.get d.bulletinId).isSome = true →
    ∃ d', db'.dispatches.get i = some d' ∧ d'.bulletinId = d.bulletinId ∧ d'.deviceId = d.deviceId

/-- A step that rewrites rows in place. -/
theorem Kept.of_rows (hnext : db'.nextBulletin = db.nextBulletin)
    (hbulletins : ∀ id, (db'.bulletins.get id).isSome = (db.bulletins.get id).isSome)
    (hdevices : ∀ deviceId, (db'.devices.get deviceId).isSome = (db.devices.get deviceId).isSome)
    (hrows : ∀ i d, db.dispatches.get i = some d →
      ∃ d', db'.dispatches.get i = some d' ∧ d'.bulletinId = d.bulletinId ∧
        d'.deviceId = d.deviceId) : Kept db db' where
  nextBulletin := hnext.ge
  bulletins id _ h := by rwa [hbulletins] at h
  devices deviceId h := by rwa [hdevices]
  rows i d hd _ := hrows i d hd

/-- A device keeps its row of a bulletin that is there. -/
theorem Kept.hasRow (h : Kept db db') (hsome : (db'.bulletins.get id).isSome = true)
    (hrow : HasRow db id deviceId) : HasRow db' id deviceId := by
  obtain ⟨i, d, hd, rfl, rfl⟩ := hrow
  obtain ⟨d', hd', hb, hv⟩ := h.rows i d hd hsome
  exact ⟨i, d', hd', hb, hv⟩

theorem pair_modify {f : DispatchId → Dispatch → Dispatch}
    (hf : ∀ i d, (f i d).bulletinId = d.bulletinId ∧ (f i d).deviceId = d.deviceId) (i : DispatchId)
    (d : Dispatch) (hd : db.dispatches.get i = some d) :
    ∃ d', (db.dispatches.modify f).get i = some d' ∧ d'.bulletinId = d.bulletinId ∧
      d'.deviceId = d.deviceId := by
  refine ⟨f i d, ?_, hf i d⟩
  rw [Table.get_modify, hd]
  rfl

/-- Every step leaves the rows of the bulletins that are there. -/
theorem step_kept (hinv : Inv labels db) (h : step db l = some db') : Kept db db' := by
  cases step_cases h with
  | @fileRows k id deviceIds htick hphase hthere =>
    have hstage := hinv.stage_of_phase htick hphase
    obtain ⟨hgrows, _⟩ := hinv.tables.fileAll hthere hstage.2.2
    refine Kept.of_rows hgrows.nextBulletin (fun _ => ?_) (fun _ => ?_) fun i d hd => ?_
    · exact congrArg (fun t : Table BulletinId Bulletin => (t.get _).isSome) hgrows.bulletins
    · exact congrArg (fun t : Table String _ => (t.get _).isSome) hgrows.devices
    · exact ⟨d, hgrows.kept i d hd, rfl, rfl⟩
  | cancel =>
    refine Kept.of_rows rfl (fun _ => rfl) (fun _ => rfl) (pair_modify fun i d => ?_)
    split <;> exact ⟨rfl, rfl⟩
  | @record k id answers chunks rows htick hphase =>
    have hstage := hinv.stage_of_phase htick hphase
    obtain ⟨_, _, hrec⟩ := hstage.2.recordAll hinv.tables k.ts
    refine Kept.of_rows hrec.nextBulletin (fun _ => ?_) hrec.devices fun i d hd => ?_
    · exact congrArg (fun t : Table BulletinId Bulletin => (t.get _).isSome) hrec.bulletins
    · obtain ⟨d', hd', hb, hv, _⟩ := hrec.rows i d hd
      exact ⟨d', hd', hb, hv⟩
  | @close k id =>
    refine Kept.of_rows rfl (fun id' => ?_) (fun _ => rfl) (pair_modify fun i d => ?_)
    · show ((if db.pendingIds id = [] then _ else db.bulletins).get id').isSome = _
      split
      · exact isSome_modify id'
      · rfl
    · split <;> exact ⟨rfl, rfl⟩
  | delay => exact Kept.of_rows rfl isSome_modify (fun _ => rfl) fun i d hd => ⟨d, hd, rfl, rfl⟩
  | newBulletin =>
    refine ⟨Nat.le_succ _, fun id hlt hsome => ?_, fun _ hsome => hsome,
      fun i d hd _ => ⟨d, hd, rfl, rfl⟩⟩
    have hsome' := hsome
    rw [Table.get_set, if_neg (Nat.ne_of_lt hlt)] at hsome'
    exact hsome'
  | editBulletin =>
    exact Kept.of_rows rfl isSome_modify (fun _ => rfl) fun i d hd => ⟨d, hd, rfl, rfl⟩
  | @deleteBulletin gone =>
    have hgone : ∀ id', ((db.bulletins.deleteWhere fun k _ => k = gone).get id').isSome = true →
        id' ≠ gone ∧ (db.bulletins.get id').isSome = true := by
      intro id' hsome
      rw [Table.get_deleteWhere_key] at hsome
      split at hsome
      · cases hsome
      · exact ⟨‹_›, hsome⟩
    refine ⟨le_rfl, fun id' _ hsome => (hgone id' hsome).2, fun _ hsome => hsome,
      fun i d hd hsome => ⟨d, ?_, rfl, rfl⟩⟩
    rw [Table.get_deleteWhere, hd, Option.filter_some, if_pos]
    simpa using (hgone _ hsome).1
  | writeDevice =>
    refine ⟨le_rfl, fun _ _ h => h, fun deviceId' hsome => ?_, fun i d hd _ => ⟨d, hd, rfl, rfl⟩⟩
    rw [Table.get_set]
    split
    · rfl
    · exact hsome
  | _ => exact Kept.of_rows rfl (fun _ => rfl) (fun _ => rfl) fun i d hd => ⟨d, hd, rfl, rfl⟩

/-! ### The tables -/

/-- Bulletins rewritten in place, and devices that stay registered. -/
theorem Tables.of_isSome (h : Tables db) (hnext : db'.nextBulletin = db.nextBulletin)
    (hbulletins : ∀ id, (db'.bulletins.get id).isSome = (db.bulletins.get id).isSome)
    (hdevices : ∀ deviceId, (db.devices.get deviceId).isSome = true →
      (db'.devices.get deviceId).isSome = true)
    (hrows : db'.dispatches = db.dispatches) (hnextDispatch : db'.nextDispatch = db.nextDispatch)
    (hfiled : db'.filed = db.filed) (hrecorded : db'.recorded = db.recorded)
    (hlost : db'.lost = db.lost) : Tables db' := by
  have htold : ∀ i, db'.told i = db.told i := fun i => by rw [Db.told, Db.told, hrecorded]
  refine
    { below := fun id hsome => ?_, dispatch := fun i d hd => ?_, filedBelow := ?_,
      filedOnce := ?_, alive := fun i id deviceId hi hsome => ?_, outcome := fun i d hd => ?_,
      settles := fun i => ?_, ledger := ?_, rounds := ?_ }
  · rw [hnext]
    exact h.below id (by rwa [← hbulletins])
  · rw [hrows] at hd
    obtain ⟨hf, hb, hv⟩ := h.dispatch i d hd
    exact ⟨by rwa [hfiled], by rwa [hbulletins], hdevices _ hv⟩
  · rw [hfiled, hnextDispatch, hnext]
    exact h.filedBelow
  · rw [hfiled]
    exact h.filedOnce
  · rw [hrows]
    rw [hfiled] at hi
    rw [hbulletins] at hsome
    exact h.alive i id deviceId hi hsome
  · rw [hrows] at hd
    rw [htold]
    exact h.outcome i d hd
  · rw [htold]
    exact h.settles i
  · rw [hrecorded, hlost, hfiled]
    exact h.ledger
  · rw [hrows]
    exact h.rounds

/-- The pushes of the rows in hand are of rows that have been filed. -/
theorem filed_of_inFlight (h : Stage labels db k.phase) {p : Handing}
    (hp : p ∈ k.phase.inFlight k.ts) :
    db.filed.get p.dispatchId = some (p.bulletinId, p.deviceId) := by
  cases hphase : k.phase with
  | answered id answers chunks rows =>
    rw [hphase] at h hp
    obtain ⟨⟨row, result⟩, hmem, rfl⟩ := List.mem_map.mp hp
    have hin := h.2.each row (List.mem_append_left _ (List.mem_map_of_mem hmem))
    show db.filed.get row.id = some (row.dispatch.bulletinId, row.dispatch.deviceId)
    rw [hin.bulletin]
    exact hin.filed
  | _ => rw [hphase] at hp; exact absurd hp List.not_mem_nil

theorem Tables.lose (h : Tables db) (hstage : Stage labels db k.phase) {tick : Option Tick} :
    Tables { db with lost := db.lost ++ k.phase.inFlight k.ts, tick } :=
  { h with
    ledger := fun p hp => by
      rw [← List.append_assoc] at hp
      rcases List.mem_append.mp hp with hold | hnew
      · exact h.ledger p hold
      · exact filed_of_inFlight hstage hnew }

/-- The end of a fan-out: it has tried every row it leaves pending. -/
theorem Tables.close (h : Tables db) (hhand : Hand db id []) : Tables (db.close id ts) := by
  have hbulletins : ∀ id', ((db.close id ts).bulletins.get id').isSome =
      (db.bulletins.get id').isSome := by
    intro id'
    show ((if db.pendingIds id = [] then _ else db.bulletins).get id').isSome = _
    split
    · exact isSome_modify id'
    · rfl
  have hget : ∀ i d, (db.close id ts).dispatches.get i = some d →
      ∃ d₀, db.dispatches.get i = some d₀ ∧ d.bulletinId = d₀.bulletinId ∧
        d.deviceId = d₀.deviceId ∧ d.status = d₀.status ∧ d.attempts = d₀.attempts ∧
          d.fanouts = if d₀.bulletinId = id then d₀.fanouts + 1 else d₀.fanouts := by
    intro i d hd
    obtain ⟨d₀, hd₀, rfl⟩ := Option.map_eq_some_iff.mp ((Table.get_modify ..).symm.trans hd)
    refine ⟨d₀, hd₀, ?_⟩
    split <;> exact ⟨rfl, rfl, rfl, rfl, rfl⟩
  refine
    { below := fun id' hsome => h.below id' (by rwa [← hbulletins]), dispatch := ?_,
      filedBelow := h.filedBelow, filedOnce := h.filedOnce, alive := ?_, outcome := ?_,
      settles := h.settles, ledger := h.ledger, rounds := ?_ }
  · intro i d hd
    obtain ⟨d₀, hd₀, hb, hv, _⟩ := hget i d hd
    rw [hbulletins, hb, hv]
    exact h.dispatch i d₀ hd₀
  · intro i id' deviceId hi hsome
    rw [hbulletins] at hsome
    exact (isSome_modify i).trans (h.alive i id' deviceId hi hsome)
  · intro i d hd
    obtain ⟨d₀, hd₀, _, _, hs, ha, _⟩ := hget i d hd
    have hout := h.outcome i d₀ hd₀
    rw [Outcome, hs, ha]
    exact hout
  · intro i d hd hpending
    obtain ⟨d₀, hd₀, _, _, hs, ha, hf⟩ := hget i d hd
    rw [hs] at hpending
    rw [ha, hf]
    split
    next hid => exact hhand.tried i d₀ hd₀ hid hpending List.not_mem_nil
    next => exact h.rounds i d₀ hd₀ hpending

/-- Every step keeps what holds of the tables. -/
theorem step_tables (hinv : Inv labels db) (h : step db l = some db') : Tables db' := by
  have ht := hinv.tables
  cases step_cases h with
  | @fileRows k id deviceIds htick hphase hthere =>
    have hstage := hinv.stage_of_phase htick hphase
    have htables := (ht.fileAll hthere hstage.2.2).1.tables
    exact { htables with }
  | @cancel k id row rows htick hphase =>
    have hstage := hinv.stage_of_phase htick hphase
    have hin := hstage.2.each row (by simp)
    have htables := (written_cancelDispatch hin).tables ht hin
    exact { htables with }
  | @record k id answers chunks rows htick hphase =>
    have hstage := hinv.stage_of_phase htick hphase
    have htables := (hstage.2.recordAll ht k.ts).1
    exact { htables with }
  | @close k id htick hphase =>
    have hstage := hinv.stage_of_phase htick hphase
    have htables : Tables (db.close id k.ts) := ht.close hstage.2
    exact { htables with }
  | @fail k id htick hbulletin => exact ht.lose (hinv.tick k htick).stage
  | @crash k htick => exact ht.lose (hinv.tick k htick).stage
  | delay => exact ht.of_isSome rfl isSome_modify (fun _ h => h) rfl rfl rfl rfl rfl
  | editBulletin => exact ht.of_isSome rfl isSome_modify (fun _ h => h) rfl rfl rfl rfl rfl
  | writeDevice =>
    refine ht.of_isSome rfl (fun _ => rfl) (fun deviceId hsome => ?_) rfl rfl rfl rfl rfl
    rw [Table.get_set]
    split
    · rfl
    · exact hsome
  | @newBulletin bulletin =>
    refine
      { ht with
        below := fun id hsome => ?_
        dispatch := fun i d hd => ?_
        filedBelow := fun i id deviceId hi => ?_
        alive := fun i id deviceId hi hsome => ?_ }
    · rw [Table.get_set] at hsome
      split at hsome
      next heq => exact heq ▸ Nat.lt_succ_self _
      next => exact Nat.lt_succ_of_lt (ht.below id hsome)
    · obtain ⟨hf, hb, hv⟩ := ht.dispatch i d hd
      refine ⟨hf, ?_, hv⟩
      rw [Table.get_set, if_neg (Nat.ne_of_lt (ht.below _ hb))]
      exact hb
    · obtain ⟨hlt, hbelow⟩ := ht.filedBelow i id deviceId hi
      exact ⟨hlt, Nat.lt_succ_of_lt hbelow⟩
    · rw [Table.get_set, if_neg (Nat.ne_of_lt (ht.filedBelow i id deviceId hi).2)] at hsome
      exact ht.alive i id deviceId hi hsome
  | @deleteBulletin gone =>
    have hget : ∀ i d, (db.dispatches.deleteWhere fun _ d => d.bulletinId = gone).get i = some d ↔
        db.dispatches.get i = some d ∧ d.bulletinId ≠ gone := by
      intro i d
      rw [Table.get_deleteWhere, Option.filter_eq_some_iff]
      simp
    have hsome : ∀ id, ((db.bulletins.deleteWhere fun k _ => k = gone).get id).isSome = true ↔
        id ≠ gone ∧ (db.bulletins.get id).isSome = true := by
      intro id
      rw [Table.get_deleteWhere_key]
      by_cases hid : id = gone
      · simp [hid]
      · simp [hid]
    refine
      { ht with
        below := fun id h => ht.below id ((hsome id).mp h).2
        dispatch := fun i d hd => ?_
        alive := fun i id deviceId hi h => ?_
        outcome := fun i d hd => ht.outcome i d ((hget i d).mp hd).1
        rounds := fun i d hd => ht.rounds i d ((hget i d).mp hd).1 }
    · obtain ⟨hd, hne⟩ := (hget i d).mp hd
      obtain ⟨hf, hb, hv⟩ := ht.dispatch i d hd
      exact ⟨hf, (hsome _).mpr ⟨hne, hb⟩, hv⟩
    · obtain ⟨hne, hb⟩ := (hsome id).mp h
      obtain ⟨d, hd⟩ := Option.isSome_iff_exists.mp (ht.alive i id deviceId hi hb)
      have hpair := (ht.dispatch i d hd).1
      rw [hi] at hpair
      obtain ⟨rfl, rfl⟩ := Prod.mk.inj (Option.some.inj hpair)
      rw [(hget i d).mpr ⟨hd, hne⟩]
      rfl
  | _ => exact { ht with }

/-! ### The bulletins a tick does not have in hand -/

/-- The pushes of a bulletin. -/
def Db.pushesOf (db : Db) (id : BulletinId) : List Handing :=
  db.handed.filter fun h => h.bulletinId = id

/-- What a step leaves of a bulletin the tick does not have in hand. -/
structure Untouched (id : BulletinId) (db db' : Db) : Prop where
  rows : ∀ i d, db'.dispatches.get i = some d → d.bulletinId = id →
    db.dispatches.get i = some d
  kept : ∀ i d, db.dispatches.get i = some d → d.bulletinId = id →
    (db'.bulletins.get id).isSome = true → db'.dispatches.get i = some d
  pushes : db'.pushesOf id = db.pushesOf id

theorem inFlight_of_ne (hstage : Stage labels db k.phase)
    (hne : k.phase.bulletin ≠ some id) :
    (k.phase.inFlight k.ts).filter (fun h => h.bulletinId = id) = [] := by
  rw [List.filter_eq_nil_iff]
  intro p hp
  cases hphase : k.phase with
  | answered id' answers chunks rows =>
    rw [hphase] at hstage hp hne
    obtain ⟨⟨row, result⟩, hmem, rfl⟩ := List.mem_map.mp hp
    have hin := hstage.2.each row (List.mem_append_left _ (List.mem_map_of_mem hmem))
    have hid : (row.handing result k.ts).bulletinId = id' := hin.bulletin
    rw [decide_eq_true_eq, hid]
    rintro rfl
    exact hne rfl
  | _ => rw [hphase] at hp; exact absurd hp List.not_mem_nil

/-- The pushes of a bulletin no tick has in hand are recorded or lost. -/
theorem pushesOf_eq (hinv : Inv labels db)
    (hne : ∀ k, db.tick = some k → k.phase.bulletin ≠ some id) :
    db.pushesOf id = (db.recorded ++ db.lost).filter fun h => h.bulletinId = id := by
  unfold Db.pushesOf Db.handed Db.inFlight
  cases htick : db.tick with
  | none => exact congrArg _ (List.append_nil _)
  | some k =>
    rw [Option.elim_some, List.filter_append, inFlight_of_ne (hinv.tick k htick).stage (hne k htick),
      List.append_nil]

/-- The pushes of rows in hand are of the tick's bulletin. -/
theorem Hand.pushes_of_ne {id' : BulletinId} {answers : List (Loaded × SendResult)}
    (hhand : Hand db id' (answers.map Prod.fst ++ rows)) (hne : id' ≠ id) (ts : Time) :
    (answers.map fun a => a.1.handing a.2 ts).filter (fun h => h.bulletinId = id) = [] := by
  rw [List.filter_eq_nil_iff]
  intro p hp
  obtain ⟨⟨row, result⟩, hmem, rfl⟩ := List.mem_map.mp hp
  have hin := hhand.each row (List.mem_append_left _ (List.mem_map_of_mem hmem))
  have hid : (row.handing result ts).bulletinId = id' := hin.bulletin
  rwa [decide_eq_true_eq, hid]

theorem Answers.map_fst_of (answers : Answers) (chunk : List Loaded) :
    (answers.of chunk).map Prod.fst = chunk := by
  rw [Answers.of, List.map_map]
  exact List.map_id chunk

/-- A step leaves the bulletins alone that the tick does not have in hand. -/
theorem step_untouched (hinv : Inv labels db)
    (hne : ∀ k, db.tick = some k → k.phase.bulletin ≠ some id) (h : step db l = some db') :
    Untouched id db db' := by
  have hbefore := pushesOf_eq hinv hne
  -- A step of which nothing is written, and that hands nothing over.
  have hquiet : ∀ tick : Option Tick, (tick.elim [] fun k => k.phase.inFlight k.ts) = [] →
      Untouched id db { db with tick } := by
    intro tick hnone
    refine ⟨fun _ _ hd _ => hd, fun _ _ hd _ _ => hd, ?_⟩
    show (db.recorded ++ db.lost ++ tick.elim [] fun k => k.phase.inFlight k.ts).filter _ = _
    rw [hnone, List.append_nil, hbefore]
  cases step_cases h with
  | begin => exact hquiet _ rfl
  | @pass k id' todo htick hphase =>
    refine hquiet _ ?_
    show k.phase.inFlight k.ts = []
    rw [hphase]
    rfl
  | openBulletin => exact hquiet _ rfl
  | resolveDevices => exact hquiet _ rfl
  | @fileRows k id' deviceIds htick hphase hthere =>
    have hstage := (hinv.tick k htick).stage
    have hid : id' ≠ id := by
      rintro rfl
      exact hne k htick (by rw [hphase]; rfl)
    rw [hphase] at hstage
    obtain ⟨hgrows, _⟩ := hinv.tables.fileAll hthere hstage.2.2
    refine ⟨fun i d hd hb => ?_, fun i d hd _ _ => hgrows.kept i d hd, ?_⟩
    · rcases hgrows.new i d hd with hold | ⟨hnew, _⟩
      · exact hold
      · exact absurd (hnew.symm.trans hb) hid
    · show ((db.fileAll id' deviceIds).recorded ++ (db.fileAll id' deviceIds).lost ++ []).filter _ = _
      rw [hgrows.recorded, hgrows.lost, List.append_nil, hbefore]
  | loadRows => exact hquiet _ rfl
  | @sendAndroid k id' chunk chunks rows answers htick hphase =>
    have hstage := (hinv.tick k htick).stage
    have hid : id' ≠ id := by
      rintro rfl
      exact hne k htick (by rw [hphase]; rfl)
    rw [hphase] at hstage
    have hhand : Hand db id' ((answers.of chunk).map Prod.fst ++ (chunks.flatten ++ rows)) := by
      rw [Answers.map_fst_of, ← List.append_assoc]
      exact hstage.2
    refine ⟨fun _ _ hd _ => hd, fun _ _ hd _ _ => hd, ?_⟩
    show (db.recorded ++ db.lost ++ (answers.of chunk).map _).filter _ = _
    rw [List.filter_append, hhand.pushes_of_ne hid k.ts, List.append_nil, hbefore]
  | @sendApple k id' row rows result htick hphase =>
    have hstage := (hinv.tick k htick).stage
    have hid : id' ≠ id := by
      rintro rfl
      exact hne k htick (by rw [hphase]; rfl)
    rw [hphase] at hstage
    have hhand : Hand db id' ([(row, result)].map Prod.fst ++ rows) := hstage.2
    refine ⟨fun _ _ hd _ => hd, fun _ _ hd _ _ => hd, ?_⟩
    show (db.recorded ++ db.lost ++
      [(row, result)].map fun a => a.1.handing a.2 k.ts).filter _ = _
    rw [List.filter_append, hhand.pushes_of_ne hid k.ts, List.append_nil, hbefore]
  | @cancel k id' row rows htick hphase =>
    have hstage := (hinv.tick k htick).stage
    have hid : id' ≠ id := by
      rintro rfl
      exact hne k htick (by rw [hphase]; rfl)
    rw [hphase] at hstage
    have hin := hstage.2.each row (by simp)
    have hrow : ∀ i d, db.dispatches.get i = some d → d.bulletinId = id → i ≠ row.id := by
      rintro i d hd hb rfl
      obtain rfl := hin.same d hd
      exact hid (hin.bulletin.symm.trans hb)
    refine ⟨fun i d hd hb => ?_, fun i d hd hb _ => ?_, ?_⟩
    · rcases get_modify_one row.id |>.mp hd with ⟨rfl, d₀, hd₀, rfl⟩ | ⟨_, hd⟩
      · exact absurd rfl (hrow _ d₀ hd₀ hb)
      · exact hd
    · exact (get_modify_one row.id).mpr (Or.inr ⟨hrow i d hd hb, hd⟩)
    · show (db.recorded ++ db.lost ++ []).filter _ = _
      rw [List.append_nil, hbefore]
  | @record k id' answers chunks rows htick hphase =>
    have hstage := (hinv.tick k htick).stage
    have hid : id' ≠ id := by
      rintro rfl
      exact hne k htick (by rw [hphase]; rfl)
    rw [hphase] at hstage
    obtain ⟨htables, _, hrec⟩ := hstage.2.recordAll hinv.tables k.ts
    have hother : ∀ i d, db.dispatches.get i = some d → d.bulletinId = id →
        i ∉ answers.map fun a => a.1.id := by
      intro i d hd hb hmem
      obtain ⟨⟨row, result⟩, hrow, rfl⟩ := List.mem_map.mp hmem
      have hin := hstage.2.each row (List.mem_append_left _ (List.mem_map_of_mem hrow))
      obtain rfl := hin.same d hd
      exact hid (hin.bulletin.symm.trans hb)
    refine ⟨fun i d hd hb => ?_, fun i d hd hb _ => ?_, ?_⟩
    · by_cases hmem : i ∈ answers.map fun a => a.1.id
      -- A row in hand has been filed for the tick's bulletin.
      · obtain ⟨⟨row, result⟩, hrow, rfl⟩ := List.mem_map.mp hmem
        have hin := hstage.2.each row (List.mem_append_left _ (List.mem_map_of_mem hrow))
        have hfiled := (htables.dispatch _ d hd).1
        rw [hrec.filed, hin.filed] at hfiled
        exact absurd ((Prod.mk.inj (Option.some.inj hfiled)).1.trans hb) hid
      · rw [← hrec.others i hmem]
        exact hd
    · rw [← hrec.others i (hother i d hd hb)] at hd
      exact hd
    · show ((db.recordAll k.ts answers).recorded ++ (db.recordAll k.ts answers).lost ++ []).filter _ = _
      rw [hrec.recorded, hrec.lost, List.append_nil, List.append_assoc, List.filter_append,
        List.filter_append, hstage.2.pushes_of_ne hid k.ts, List.nil_append, ← List.filter_append,
        hbefore]
  | @close k id' htick hphase =>
    have hid : id' ≠ id := by
      rintro rfl
      exact hne k htick (by rw [hphase]; rfl)
    refine ⟨fun i d hd hb => ?_, fun i d hd hb _ => ?_, ?_⟩
    · obtain ⟨d₀, hd₀, heq⟩ := Option.map_eq_some_iff.mp ((Table.get_modify ..).symm.trans hd)
      split at heq
      next hb₀ =>
        subst heq
        exact absurd (hb₀.symm.trans hb) hid
      next =>
        subst heq
        exact hd₀
    · show (db.dispatches.modify _).get i = some d
      rw [Table.get_modify, hd, Option.map_some, if_neg (fun heq => hid (heq.symm.trans hb))]
    · show (db.recorded ++ db.lost ++ []).filter _ = _
      rw [List.append_nil, hbefore]
  | failNext => exact hquiet _ rfl
  | @fail k id' htick hbulletin =>
    refine ⟨fun _ _ hd _ => hd, fun _ _ hd _ _ => hd, ?_⟩
    show (db.recorded ++ (db.lost ++ k.phase.inFlight k.ts) ++ []).filter _ = _
    rw [List.append_nil, ← List.append_assoc, List.filter_append,
      inFlight_of_ne (hinv.tick k htick).stage (hne k htick), List.append_nil, hbefore]
  | delay =>
    refine ⟨fun _ _ hd _ => hd, fun _ _ hd _ _ => hd, ?_⟩
    show (db.recorded ++ db.lost ++ []).filter _ = _
    rw [List.append_nil, hbefore]
  | undelayed => exact hquiet _ rfl
  | finish => exact hquiet _ rfl
  | @crash k htick =>
    refine ⟨fun _ _ hd _ => hd, fun _ _ hd _ _ => hd, ?_⟩
    show (db.recorded ++ (db.lost ++ k.phase.inFlight k.ts) ++ []).filter _ = _
    rw [List.append_nil, ← List.append_assoc, List.filter_append,
      inFlight_of_ne (hinv.tick k htick).stage (hne k htick), List.append_nil, hbefore]
  | newBulletin => exact ⟨fun _ _ hd _ => hd, fun _ _ hd _ _ => hd, rfl⟩
  | editBulletin => exact ⟨fun _ _ hd _ => hd, fun _ _ hd _ _ => hd, rfl⟩
  | @deleteBulletin gone =>
    refine ⟨fun i d hd _ => ?_, fun i d hd hb hsome => ?_, rfl⟩
    · rw [Table.get_deleteWhere, Option.filter_eq_some_iff] at hd
      exact hd.1
    · rw [Table.get_deleteWhere_key] at hsome
      split at hsome
      next => cases hsome
      next hgone =>
        rw [Table.get_deleteWhere, hd, Option.filter_some, if_pos]
        simpa [hb] using hgone
  | writeDevice => exact ⟨fun _ _ hd _ => hd, fun _ _ hd _ _ => hd, rfl⟩
  | writeRules => exact ⟨fun _ _ hd _ => hd, fun _ _ hd _ _ => hd, rfl⟩

/-! ### The stamp -/

/-- The end of the fan-out of a bulletin that stamps it. -/
def Closes (db : Db) (l : Label) (id : BulletinId) : Prop :=
  l = .close ∧ ∃ k, db.tick = some k ∧ k.phase = .sending id [] []

/-- A stamped bulletin was stamped before, or its fan-out ends here with no row pending. -/
theorem stamp_cases (hinv : Inv labels db) (h : step db l = some db') {b : Bulletin}
    (hb : db'.bulletins.get id = some b) (hstamp : b.notifiedAt ≠ none) :
    (∃ b₀, db.bulletins.get id = some b₀ ∧ b₀.notifiedAt = b.notifiedAt) ∨
      (Closes db l id ∧ db.pendingIds id = []) := by
  cases step_cases h with
  | @fileRows k id' deviceIds htick hphase hthere =>
    have hstage := hinv.stage_of_phase htick hphase
    obtain ⟨hgrows, _⟩ := hinv.tables.fileAll hthere hstage.2.2
    exact Or.inl ⟨b, hgrows.bulletins ▸ hb, rfl⟩
  | @record k id' answers chunks rows htick hphase =>
    have hstage := hinv.stage_of_phase htick hphase
    obtain ⟨_, _, hrec⟩ := hstage.2.recordAll hinv.tables k.ts
    exact Or.inl ⟨b, hrec.bulletins ▸ hb, rfl⟩
  | @close k id' htick hphase =>
    have hb' : (if db.pendingIds id' = [] then db.bulletins.modify fun k' b =>
        if k' = id' then { b with notifiedAt := some k.ts } else b
      else db.bulletins).get id = some b := hb
    split at hb'
    next hnil =>
      obtain ⟨b₀, hb₀, heq⟩ := Option.map_eq_some_iff.mp ((Table.get_modify ..).symm.trans hb')
      by_cases hid : id = id'
      · subst hid
        exact Or.inr ⟨⟨rfl, k, htick, hphase⟩, hnil⟩
      · rw [if_neg hid] at heq
        exact Or.inl ⟨b₀, hb₀, by rw [heq]⟩
    next => exact Or.inl ⟨b, hb', rfl⟩
  | delay =>
    obtain ⟨b₀, hb₀, rfl⟩ := Option.map_eq_some_iff.mp ((Table.get_modify ..).symm.trans hb)
    refine Or.inl ⟨b₀, hb₀, ?_⟩
    split <;> rfl
  | newBulletin =>
    rw [Table.get_set] at hb
    split at hb
    · cases hb
      exact absurd rfl hstamp
    · exact Or.inl ⟨b, hb, rfl⟩
  | editBulletin =>
    obtain ⟨b₀, hb₀, rfl⟩ := Option.map_eq_some_iff.mp ((Table.get_modify ..).symm.trans hb)
    refine Or.inl ⟨b₀, hb₀, ?_⟩
    split <;> rfl
  | deleteBulletin =>
    rw [Table.get_deleteWhere_key] at hb
    split at hb
    next => cases hb
    next => exact Or.inl ⟨b, hb, rfl⟩
  | _ => exact Or.inl ⟨b, hb, rfl⟩

/-- A bulletin stays unstamped unless its fan-out ends. -/
theorem Unstamped.step (hun : Unstamped db id) (hinv : Inv labels db) (h : step db l = some db')
    (hne : ¬Closes db l id) : Unstamped db' id := by
  intro b hb
  by_contra hstamp
  rcases stamp_cases hinv h hb hstamp with ⟨b₀, hb₀, heq⟩ | ⟨hclose, _⟩
  · exact hstamp (heq.symm.trans (hun b₀ hb₀))
  · exact hne hclose

theorem Filed.step (hfiled : Filed labels db id) (hkept : Kept db db') (l : Label) :
    Filed (labels ++ [l]) db' id := by
  obtain ⟨hlt, deviceIds, hever, hrows⟩ := hfiled
  refine ⟨hlt.trans_le hkept.nextBulletin, deviceIds, hever.snoc l, fun hsome deviceId hmem => ?_⟩
  exact hkept.hasRow hsome (hrows (hkept.bulletins id hlt hsome) deviceId hmem)

/-! ### Every step keeps the invariant -/

/-- What a tick has come to, after a step of somebody else. -/
theorem Stage.others {phase : Phase} (h : Stage labels db phase) (hkept : Kept db db')
    (hrecorded : db'.recorded = db.recorded) (hfiled : db'.filed = db.filed)
    (hrows : ∀ i d, db'.dispatches.get i = some d → db.dispatches.get i = some d) (l : Label) :
    Stage (labels ++ [l]) db' phase := by
  cases phase with
  | next => trivial
  | resolving id bulletin => exact Nat.lt_of_lt_of_le h hkept.nextBulletin
  | filing id deviceIds =>
    obtain ⟨hlt, hever, hdevices⟩ := h
    exact ⟨hlt.trans_le hkept.nextBulletin, hever.snoc l, fun deviceId hmem =>
      hkept.devices deviceId (hdevices deviceId hmem)⟩
  | filed id => exact h.step hkept l
  | sending id chunks rows => exact ⟨h.1.step hkept l, h.2.of_kept hrecorded hfiled hrows⟩
  | answered id answers chunks rows =>
    exact ⟨h.1.step hkept l, h.2.of_kept hrecorded hfiled hrows⟩
  | failing id => trivial

/-- A tick stays as it is in a step of somebody else. -/
theorem TickInv.others (hinv : Inv labels db) (h : step db l = some db') (htick : db'.tick = db.tick)
    (hclose : l ≠ .close) (hrecorded : db'.recorded = db.recorded) (hfiled : db'.filed = db.filed)
    (hrows : ∀ i d, db'.dispatches.get i = some d → db.dispatches.get i = some d)
    (hk : db'.tick = some k) : TickInv (labels ++ [l]) db' k := by
  have hold := hinv.tick k (htick ▸ hk)
  have hun : ∀ {id}, Unstamped db id → Unstamped db' id := fun hu =>
    hu.step hinv h fun hc => hclose hc.1
  exact
    { nodup := hold.nodup
      apart := fun id hid => ⟨(hold.apart id hid).1, hun (hold.apart id hid).2⟩
      waiting := fun id hmem => hun (hold.waiting id hmem)
      stage := hold.stage.others (step_kept hinv h) hrecorded hfiled hrows l }

/-- A tick takes a step within the fan-out of a bulletin. -/
theorem TickInv.within {phase : Phase} (hinv : Inv labels db) (h : step db l = some db')
    (htick : db.tick = some k) (hbulletin : phase.bulletin = k.phase.bulletin)
    (hclose : l ≠ .close) (hstage : Stage (labels ++ [l]) db' phase) :
    TickInv (labels ++ [l]) db' { k with phase } := by
  have hold := hinv.tick k htick
  have hun : ∀ {id}, Unstamped db id → Unstamped db' id := fun hu =>
    hu.step hinv h fun hc => hclose hc.1
  exact
    { nodup := hold.nodup
      apart := fun id hid =>
        have hboth := hold.apart id (hbulletin ▸ hid)
        ⟨hboth.1, hun hboth.2⟩
      waiting := fun id hmem => hun (hold.waiting id hmem)
      stage := hstage }

/-- A tick is between two bulletins. -/
theorem TickInv.between (hinv : Inv labels db) (h : step db l = some db') (htick : db.tick = some k)
    (hbulletin : ∀ id, Closes db l id → k.phase.bulletin = some id) :
    TickInv (labels ++ [l]) db' { k with phase := .next } := by
  have hold := hinv.tick k htick
  refine ⟨hold.nodup, fun id hid => (by cases hid), fun id hmem => ?_, trivial⟩
  exact (hold.waiting id hmem).step hinv h fun hc => (hold.apart id (hbulletin id hc)).1 hmem

/-- A tick takes the next bulletin. -/
theorem TickInv.take {todo : List BulletinId} {phase : Phase} (hinv : Inv labels db)
    (h : step db l = some db') (htick : db.tick = some k) (htodo : k.todo = id :: todo)
    (hbulletin : phase.bulletin = none ∨ phase.bulletin = some id) (hclose : l ≠ .close)
    (hstage : Stage (labels ++ [l]) db' phase) :
    TickInv (labels ++ [l]) db' { k with todo, phase } := by
  have hold := hinv.tick k htick
  have hun : ∀ {id}, Unstamped db id → Unstamped db' id := fun hu =>
    hu.step hinv h fun hc => hclose hc.1
  obtain ⟨hfresh, hnodup⟩ := List.nodup_cons.mp (htodo ▸ hold.nodup)
  refine ⟨hnodup, fun id' hid => ?_, fun id' hmem => ?_, hstage⟩
  · rcases hbulletin with hnone | hsome
    · rw [hnone] at hid
      cases hid
    · obtain rfl : id = id' := Option.some.inj (hsome.symm.trans hid)
      exact ⟨hfresh, hun (hold.waiting id (htodo ▸ List.mem_cons_self))⟩
  · exact hun (hold.waiting id' (htodo ▸ List.mem_cons_of_mem _ hmem))

theorem mem_dueIds (h : id ∈ db.dueIds ts) : Unstamped db id := by
  have hmem := List.mem_of_mem_take h
  rw [List.mem_insertionSort, List.mem_map] at hmem
  obtain ⟨⟨id', b⟩, hrow, rfl⟩ := hmem
  obtain ⟨hrow, hdue⟩ := List.mem_filter.mp hrow
  intro b' hb'
  obtain rfl := Option.some.inj (hb'.symm.trans ((Table.get_eq_some_iff ..).mpr hrow))
  simp only [Bulletin.due, Bool.and_eq_true, Option.isNone_iff_eq_none] at hdue
  exact hdue.1.1.2

theorem dueIds_nodup (db : Db) (ts : Time) : (db.dueIds ts).Nodup :=
  ((List.perm_insertionSort _ _).nodup_iff.mpr (Table.select_keys_nodup ..)).sublist
    (List.take_sublist ..)

/-- Every step keeps what holds of the tick. -/
theorem step_tick (hinv : Inv labels db) (hexec : exec step Db.initial labels = some db)
    (h : step db l = some db') (hk : db'.tick = some k) : TickInv (labels ++ [l]) db' k := by
  have hkept := step_kept hinv h
  cases step_cases h with
  | begin hidle =>
    cases hk
    refine ⟨dueIds_nodup .., fun id hid => (by cases hid), fun id hmem => ?_, trivial⟩
    exact (mem_dueIds hmem).step hinv h fun hc => (by cases hc.1)
  | @pass k id todo htick hphase htodo =>
    cases hk
    have hnext : Stage (labels ++ [.openBulletin]) { db with tick := some { k with todo } }
        k.phase := by
      rw [hphase]
      trivial
    exact TickInv.take hinv h htick htodo (Or.inl (by rw [hphase]; rfl)) (by simp) hnext
  | openBulletin htick hphase htodo hget =>
    cases hk
    refine TickInv.take hinv h htick htodo (Or.inr rfl) (by simp) ?_
    exact hinv.tables.below _ (by rw [hget]; rfl)
  | @resolveDevices k id bulletin htick hphase =>
    cases hk
    have hstage := hinv.stage_of_phase htick hphase
    refine TickInv.within hinv h htick (by rw [hphase]; rfl) (by simp) ⟨hstage, ?_, ?_⟩
    · exact Ever.last hexec ⟨rfl, k, bulletin, htick, hphase, rfl⟩
    · exact fun deviceId hmem => Db.devices_of_mem_resolve hmem
  | @fileRows k id deviceIds htick hphase hthere =>
    cases hk
    have hstage := hinv.stage_of_phase htick hphase
    obtain ⟨hgrows, hrows⟩ := hinv.tables.fileAll hthere hstage.2.2
    refine TickInv.within hinv h htick (by rw [hphase]; rfl) (by simp) ?_
    exact ⟨hstage.1.trans_le hgrows.nextBulletin.ge, deviceIds, hstage.2.1.snoc _,
      fun _ => hrows⟩
  | @loadRows k id order htick hphase horder =>
    cases hk
    have hstage := hinv.stage_of_phase htick hphase
    refine TickInv.within hinv h htick (by rw [hphase]; rfl) (by simp) ⟨hstage.step hkept _, ?_⟩
    have hhand := (hinv.tables.hand horder).perm (batched_perm _)
    exact hhand.of_kept rfl rfl fun _ _ hd => hd
  | @sendAndroid k id chunk chunks rows answers htick hphase =>
    cases hk
    have hstage := hinv.stage_of_phase htick hphase
    refine TickInv.within hinv h htick (by rw [hphase]; rfl) (by simp) ⟨hstage.1.step hkept _, ?_⟩
    rw [Answers.map_fst_of, ← List.append_assoc]
    exact hstage.2.of_kept rfl rfl fun _ _ hd => hd
  | @sendApple k id row rows result htick hphase =>
    cases hk
    have hstage := hinv.stage_of_phase htick hphase
    refine TickInv.within hinv h htick (by rw [hphase]; rfl) (by simp) ⟨hstage.1.step hkept _, ?_⟩
    exact hstage.2.of_kept rfl rfl fun _ _ hd => hd
  | @cancel k id row rows htick hphase =>
    cases hk
    have hstage := hinv.stage_of_phase htick hphase
    refine TickInv.within hinv h htick (by rw [hphase]; rfl) (by simp) ⟨hstage.1.step hkept _, ?_⟩
    have hin := hstage.2.each row (by simp)
    have hhand : Hand (db.cancelDispatch row) id rows :=
      (written_cancelDispatch hin).hand hinv.tables hstage.2
    exact hhand.of_kept rfl rfl fun _ _ hd => hd
  | @record k id answers chunks rows htick hphase =>
    cases hk
    have hstage := hinv.stage_of_phase htick hphase
    refine TickInv.within hinv h htick (by rw [hphase]; rfl) (by simp) ⟨hstage.1.step hkept _, ?_⟩
    have hhand := (hstage.2.recordAll hinv.tables k.ts).2.1
    exact hhand.of_kept rfl rfl fun _ _ hd => hd
  | @close k id htick hphase =>
    cases hk
    refine TickInv.between hinv h htick ?_
    rintro id' ⟨-, k', hk', hphase'⟩
    obtain rfl := Option.some.inj (htick.symm.trans hk')
    rw [hphase']
    rfl
  | failNext htick hphase htodo =>
    cases hk
    exact TickInv.take hinv h htick htodo (Or.inr rfl) (by simp) trivial
  | fail htick hbulletin =>
    cases hk
    exact TickInv.within hinv h htick hbulletin.symm (by simp) trivial
  | delay htick hphase =>
    cases hk
    exact TickInv.between hinv h htick fun _ hc => (by cases hc.1)
  | undelayed htick hphase =>
    cases hk
    exact TickInv.between hinv h htick fun _ hc => (by cases hc.1)
  | finish => cases hk
  | crash => cases hk
  | newBulletin => exact TickInv.others hinv h rfl (by simp) rfl rfl (fun _ _ hd => hd) hk
  | editBulletin => exact TickInv.others hinv h rfl (by simp) rfl rfl (fun _ _ hd => hd) hk
  | deleteBulletin =>
    refine TickInv.others hinv h rfl (by simp) rfl rfl (fun i d hd => ?_) hk
    rw [Table.get_deleteWhere, Option.filter_eq_some_iff] at hd
    exact hd.1
  | writeDevice => exact TickInv.others hinv h rfl (by simp) rfl rfl (fun _ _ hd => hd) hk
  | writeRules => exact TickInv.others hinv h rfl (by simp) rfl rfl (fun _ _ hd => hd) hk

/-- Every step keeps what holds of the stamped bulletins. -/
theorem step_stamped (hinv : Inv labels db) (h : step db l = some db') {b : Bulletin}
    (hb : db'.bulletins.get id = some b) (hstamp : b.notifiedAt ≠ none) :
    Stamped (labels ++ [l]) db' id := by
  have hkept := step_kept hinv h
  rcases stamp_cases hinv h hb hstamp with ⟨b₀, hb₀, heq⟩ | ⟨⟨rfl, k, htick, hphase⟩, hnil⟩
  -- It was stamped before: no tick has it in hand.
  · obtain ⟨ts, hts⟩ := Option.ne_none_iff_exists'.mp (heq ▸ hstamp : b₀.notifiedAt ≠ none)
    have hold := hinv.stamped id b₀ ts hb₀ hts
    have hne : ∀ k, db.tick = some k → k.phase.bulletin ≠ some id := by
      intro k hk hid
      have := ((hinv.tick k hk).apart id hid).2 b₀ hb₀
      rw [hts] at this
      cases this
    have hsame := step_untouched hinv hne h
    exact ⟨fun i d hd hid => hold.settled i d (hsame.rows i d hd hid) hid, hold.filed.step hkept l⟩
  -- Its fan-out ends here.
  · have hstage := hinv.stage_of_phase htick hphase
    refine ⟨fun i d hd hid hpending => ?_, hstage.1.step hkept _⟩
    obtain ⟨k', htick', hphase'⟩ : ∃ k', db.tick = some k' ∧ k'.phase = .sending id [] [] :=
      ⟨k, htick, hphase⟩
    have hdb : db' = { db.close id k.ts with tick := some { k with phase := .next } } := by
      unfold DeviceDispatch.step at h
      simp only [htick, Option.bind_some, tickStep, hphase] at h
      exact (Option.some.inj h).symm
    rw [hdb] at hd
    obtain ⟨d₀, hd₀, rfl⟩ := Option.map_eq_some_iff.mp ((Table.get_modify ..).symm.trans hd)
    have hmem : i ∈ db.pendingIds id := by
      refine Db.mem_pendingIds.mpr ⟨d₀, hd₀, ?_, ?_⟩
      · split at hid <;> exact hid
      · split at hpending <;> exact hpending
    rw [hnil] at hmem
    cases hmem

theorem inv_initial : Inv [] Db.initial where
  tables :=
    { below := fun _ h => by cases h
      dispatch := fun _ _ h => by cases h
      filedBelow := fun _ _ _ h => by cases h
      filedOnce := fun _ _ _ h => by cases h
      alive := fun _ _ _ h => by cases h
      outcome := fun _ _ h => by cases h
      settles := fun _ => Unsettled.nil.settles
      ledger := fun _ h => by cases h
      rounds := fun _ _ h => by cases h }
  tick _ h := by cases h
  stamped _ _ _ h := by cases h

/-- The invariant holds in every state that can be reached. -/
theorem inv_of_run (hrun : FreeRun step Db.initial labels db) : Inv labels db := by
  induction hrun with
  | nil => exact inv_initial
  | snoc hrun _ hstep ih =>
    exact
      { tables := step_tables ih hstep
        tick := fun k hk => step_tick ih hrun.exec_eq hstep hk
        stamped := fun id b ts hb hts =>
          step_stamped ih hstep hb (by rw [hts]; exact Option.some_ne_none ts) }

end TigerDuck.Bulletins.DeviceDispatch
